/-
The names that FUSE shows: a tree inferred from tags.

Follows `CteTagExists`, `CteListDirectChildren`, `CteListSubdirs` and `CteDirExists` of
`fuse_cte.h`, `cte_fuse_getattr` and `cte_fuse_readdir` of `fuse_cte.cc`, and
`Runtime::TagQuery` with the aggregation of its replies.  There are no directories: a file is
a tag whose name is the path of the file, and everything else is a query for the tags whose
names match a regular expression.

A query is broadcast.  Every container goes through its own tags, in an order of its own, and
the replies are joined in the order in which they arrive; the containers and their tags are
lists, in these orders.  A tag is of one container.

Strings are lists of characters, and a character is a `char`: nothing here looks at how a
name is encoded.
-/
import IowarpCore.Lib.Regex

namespace IowarpCore
namespace Adapter

/-! ### Names and paths -/

/-- The name of a tag: an absolute path, of any characters that a path may have. -/
structure TagName where
  chars : List Char
  absolute : chars.head? = some '/'
  noNul : '\x00' ∉ chars
deriving DecidableEq, Repr

/-- A component of a path. -/
structure Component where
  chars : List Char
  nonempty : chars ≠ []
  noSlash : '/' ∉ chars
  noNul : '\x00' ∉ chars
deriving DecidableEq, Repr

/-- A name that a directory can hold.  The kernel resolves the other two on its own. -/
structure FileName extends Component where
  notDot : chars ≠ ['.']
  notDotDot : chars ≠ ['.', '.']
deriving DecidableEq, Repr

/-- The components of a path, from the root. -/
abbrev Path := List Component

/-- Every component, each after a slash. -/
def Path.slashed (p : Path) : List Char :=
  p.flatMap fun c => '/' :: c.chars

/-- The path as FUSE hands it over. -/
def Path.render (p : Path) : List Char :=
  if p = [] then ['/'] else p.slashed

/-- The path `p/n`. -/
def Path.entry (p : Path) (n : FileName) : Path :=
  p ++ [n.toComponent]

/-! ### Tags and the query for them -/

/-- What the calls see: the tags of every container, the size of each tag, and the user. -/
structure Namespace where
  containers : List (List TagName)
  /-- A name is mapped once, and in one container. -/
  nodup : containers.flatten.Nodup
  /-- `CteGetTagSize`. -/
  tagSize : List Char → Nat
  uid : Nat
  gid : Nat

/-- The names of all tags. -/
def Namespace.tags (ns : Namespace) : List TagName :=
  ns.containers.flatten

/-- The results of `TagQueryTask`. -/
structure TagQueryTask where
  returnCode : Nat
  totalTagsMatched : Nat
  results : List (List Char)
deriving DecidableEq, Repr

/-- Results are added up to `max_tags_`, if it is not zero. -/
def upTo (maxTags : Nat) (results : List (List Char)) : List (List Char) :=
  if maxTags = 0 then results else results.take maxTags

/-- `Runtime::TagQuery` of one container. -/
def TagQuery (tags : List TagName) (tagRegex : List Char) (maxTags : Nat) : TagQueryTask :=
  match Regex.parse tagRegex with
  | none => ⟨1, 0, []⟩
  | some pattern =>
    let matchingTags := (tags.map TagName.chars).filter (Regex.regexMatch pattern)
    ⟨0, matchingTags.length, upTo maxTags matchingTags⟩

/-- `TagQueryTask::Aggregate`. -/
def TagQueryTask.aggregate (maxTags : Nat) (task other : TagQueryTask) : TagQueryTask :=
  ⟨if other.returnCode = 0 then task.returnCode else other.returnCode,
    task.totalTagsMatched + other.totalTagsMatched,
    upTo maxTags (task.results ++ other.results)⟩

/-- `AsyncTagQuery`, and the wait for it. -/
def Namespace.tagQuery (ns : Namespace) (tagRegex : List Char) (maxTags : Nat) : TagQueryTask :=
  (ns.containers.map fun tags => TagQuery tags tagRegex maxTags).foldl
    (TagQueryTask.aggregate maxTags) ⟨0, 0, []⟩

/-! ### The helpers -/

/-- The characters that the helpers escape. -/
def escaped (c : Char) : Bool :=
  c ∈ ['.', '[', ']', '(', ')', '\x7b', '\x7d', '+', '*', '?', '\\', '^', '$', '|']

def regexEscape (s : List Char) : List Char :=
  s.flatMap fun c => if escaped c then ['\\', c] else [c]

/-- A slash at the end, unless there is one. -/
def trailingSlash (s : List Char) : List Char :=
  if s ≠ [] ∧ s.getLast? ≠ some '/' then s ++ ['/'] else s

/-- `prefix_len`. -/
def prefixLen (dirPath : List Char) : Nat :=
  if dirPath ≠ [] ∧ dirPath.getLast? ≠ some '/' then dirPath.length + 1 else dirPath.length

def CteTagExists (ns : Namespace) (tagName : List Char) : Bool :=
  let task := ns.tagQuery (regexEscape tagName) 1
  task.returnCode = 0 ∧ task.results ≠ []

def CteListDirectChildren (ns : Namespace) (dirPath : List Char) : List (List Char) :=
  let regex := '^' :: trailingSlash (regexEscape dirPath) ++ ['[', '^', '/', ']', '+', '$']
  let task := ns.tagQuery regex 0
  if task.returnCode ≠ 0 then []
  else
    (task.results.filter fun fullPath => prefixLen dirPath < fullPath.length).map
      (List.drop (prefixLen dirPath))

/-- The loop of `CteListSubdirs` takes one name more. -/
def addSubdir (dirPath : List Char) (subdirs : List (List Char)) (fullPath : List Char) :
    List (List Char) :=
  let remainder := fullPath.drop (prefixLen dirPath)
  let subdir := remainder.takeWhile (· ≠ '/')
  if fullPath.length ≤ prefixLen dirPath then subdirs
  else if '/' ∉ remainder then subdirs
  else if subdir ∈ subdirs then subdirs
  else subdirs ++ [subdir]

def CteListSubdirs (ns : Namespace) (dirPath : List Char) : List (List Char) :=
  let regex := '^' :: trailingSlash (regexEscape dirPath) ++ ['[', '^', '/', ']', '+', '/', '.', '*']
  (ns.tagQuery regex 0).results.foldl (addSubdir dirPath) []

def CteDirExists (ns : Namespace) (dirPath : List Char) : Bool :=
  let task := ns.tagQuery ('^' :: trailingSlash (regexEscape dirPath) ++ ['.', '*']) 1
  task.returnCode = 0 ∧ task.results ≠ []

/-! ### The calls of FUSE -/

/-- What `stat` is filled with. -/
structure Stat where
  mode : Nat
  nlink : Nat
  uid : Nat
  gid : Nat
  size : Nat
deriving DecidableEq, Repr

/-- `S_IFDIR`. -/
def sIfDir : Nat := 0o040000

/-- `S_IFREG`. -/
def sIfReg : Nat := 0o100000

/-- `S_ISDIR`. -/
def Stat.isDir (st : Stat) : Bool :=
  st.mode &&& 0o170000 = sIfDir

/-- The answers of `getattr`. -/
inductive Errno where
  | enoent
deriving DecidableEq, Repr

def getattr (ns : Namespace) (path : List Char) : Except Errno Stat :=
  if path = ['/'] then .ok ⟨sIfDir ||| 0o755, 2, ns.uid, ns.gid, 0⟩
  else if CteTagExists ns path then
    .ok ⟨sIfReg ||| 0o644, 1, ns.uid, ns.gid, ns.tagSize path⟩
  else if CteDirExists ns path then .ok ⟨sIfDir ||| 0o755, 2, ns.uid, ns.gid, 0⟩
  else .error .enoent

/-- The string that a C function finds. -/
def cStr (s : List Char) : List Char :=
  s.takeWhile (· ≠ '\x00')

/-- The names handed to `filler`, in their order. -/
def readdir (ns : Namespace) (path : List Char) : List (List Char) :=
  let files := CteListDirectChildren ns path
  let subdirs := CteListSubdirs ns path
  ['.'] :: ['.', '.'] :: (files.map cStr ++ (subdirs.filter (· ∉ files)).map cStr)

end Adapter
end IowarpCore
