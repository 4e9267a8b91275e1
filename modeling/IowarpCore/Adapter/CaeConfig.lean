/-
The adapter configuration: `CaeConfig` of cae_config.cc.

Strings are lists of characters, one for each `char`.  The YAML library, `std::regex` and the
environment are parameters, and so is `std::sort`, which may leave patterns of equal length in
any order.  Files and log messages are not modelled: a configuration is loaded from a text.
-/
import IowarpCore.Lib.DecisionList

namespace IowarpCore.Adapter

/-! ### YAML -/

/-- A node of a YAML document; what is not there is no node. -/
inductive Yaml where
  | null
  | scalar (text : List Char)
  | sequence (items : List Yaml)
  | map (entries : List (List Char × Yaml))

/-- `config[key]`; a subscript of a scalar throws. -/
def Yaml.subscript (config : Yaml) (key : List Char) : Except Unit (Option Yaml) :=
  match config with
  | .null => .ok none
  | .scalar _ => .error ()
  | .sequence _ => .ok none
  | .map entries => .ok ((entries.find? fun entry => entry.1 = key).map Prod.snd)

/-- The library, with what is relied on: it reads back the nodes and the values it writes, and
an empty text is no map. -/
structure YamlCpp (τ : Type) where
  emit : Yaml → τ
  load : τ → Option Yaml
  empty : τ → Bool
  sizeText : UInt64 → List Char
  asSize : List Char → Option UInt64
  boolText : Bool → List Char
  asBool : List Char → Option Bool
  load_emit : ∀ node, load (emit node) = some node
  empty_emit : ∀ entries, empty (emit (.map entries)) = false
  asSize_sizeText : ∀ n, asSize (sizeText n) = some n
  asBool_boolText : ∀ b, asBool (boolText b) = some b

/-! ### Expansion -/

/-- The rest of a path from some position on; `fuel` is its length. -/
def expandFrom (getenv : List Char → List Char) : Nat → List Char → List Char
  | 0, path => path
  | fuel + 1, path =>
    match path with
    | '$' :: '\x7b' :: rest =>
      if '\x7d' ∈ rest then
        getenv (rest.takeWhile (· ≠ '\x7d')) ++
          expandFrom getenv fuel (rest.dropWhile (· ≠ '\x7d')).tail
      else path
    | c :: rest => c :: expandFrom getenv fuel rest
    | [] => []

/-- `ConfigParse::ExpandPath`; a variable that is not set is empty. -/
def expandPath (getenv : List Char → List Char) (path : List Char) : List Char :=
  expandFrom getenv path.length path

/-! ### The configuration -/

structure PathPattern where
  pattern : List Char
  isInclude : Bool
deriving DecidableEq, Repr

/-- `std::sort` by length, longest first. -/
abbrev PatternSort := SortDesc fun p : PathPattern => p.pattern.length

structure CaeConfig where
  patterns : List PathPattern
  adapterPageSize : UInt64
  interceptionEnabled : Bool
deriving DecidableEq, Repr

/-- A new configuration. -/
def CaeConfig.new : CaeConfig := ⟨[], 4096, true⟩

/-- The program around a configuration: its YAML library, its environment, `std::regex_search`
of a pattern and a path, which is none where the pattern is no regular expression, and whether
there is a CTE manager and that is initialized. -/
structure World (τ : Type) where
  yaml : YamlCpp τ
  getenv : List Char → List Char
  regexSearch : List Char → List Char → Option Bool
  cteManager : Option Bool

variable {τ : Type}

/-! ### Loading -/

/-- The patterns of a sequence: what is not a scalar is skipped, and an empty pattern too. -/
def World.patternsOf (w : World τ) (isInclude : Bool) (items : List Yaml) : List PathPattern :=
  items.filterMap fun item =>
    match item with
    | .scalar pattern =>
      if pattern.isEmpty then none else some ⟨expandPath w.getenv pattern, isInclude⟩
    | _ => none

/-- The patterns under a key, if there is nothing else than a sequence. -/
def World.patternsUnder (w : World τ) (config : Yaml) (key : List Char) (isInclude : Bool) :
    Option (List PathPattern) :=
  match config.subscript key with
  | .error () => none
  | .ok none => some []
  | .ok (some (.sequence items)) => some (w.patternsOf isInclude items)
  | .ok (some _) => none

/-- `as<T>` of what is under a key: none if it throws. -/
def scalarUnder {α : Type} (config : Yaml) (key : List Char) (as : List Char → Option α)
    (default : α) : Option α :=
  match config.subscript key with
  | .error () => none
  | .ok none => some default
  | .ok (some (.scalar text)) => as text
  | .ok (some _) => none

def includeKey : List Char := "include".toList
def excludeKey : List Char := "exclude".toList
def pageSizeKey : List Char := "adapter_page_size".toList
def interceptionKey : List Char := "interception_enabled".toList

/-- The settings behind the patterns. -/
def World.loadSettings (w : World τ) (config : Yaml) (c : CaeConfig) : Bool × CaeConfig :=
  match scalarUnder config pageSizeKey w.yaml.asSize c.adapterPageSize with
  | none => (false, c)
  | some pageSize =>
    -- A page size that is not in the text is kept, also if it is 0.
    let pageSize :=
      if (config.subscript pageSizeKey).toOption.join.isSome ∧ pageSize = 0 then 4096
      else pageSize
    let c := { c with adapterPageSize := pageSize }
    match scalarUnder config interceptionKey w.yaml.asBool c.interceptionEnabled with
    | none => (false, c)
    | some enabled => (true, { c with interceptionEnabled := enabled })

/-- `CaeConfig::LoadFromYaml`; a configuration that failed to load keeps what was done. -/
def World.loadFromYaml (w : World τ) (std : PatternSort) (config : Yaml) (c : CaeConfig) :
    Bool × CaeConfig :=
  match w.patternsUnder config includeKey true with
  | none => (false, { c with patterns := [] })
  | some includes =>
    match w.patternsUnder config excludeKey false with
    | none => (false, { c with patterns := includes })
    | some excludes =>
      w.loadSettings config { c with patterns := std.sort (includes ++ excludes) }

/-- `CaeConfig::LoadFromString`. -/
def World.loadFromString (w : World τ) (std : PatternSort) (yamlContent : τ) (c : CaeConfig) :
    Bool × CaeConfig :=
  if w.yaml.empty yamlContent then (false, c)
  else
    match w.yaml.load yamlContent with
    | none => (false, c)
    | some config => w.loadFromYaml std config c

/-! ### Saving -/

/-- A node that patterns are pushed back to: without any it stays null. -/
def listNode (patterns : List PathPattern) : Yaml :=
  if patterns.isEmpty then .null else .sequence (patterns.map fun p => .scalar p.pattern)

def World.toYaml (w : World τ) (c : CaeConfig) : Yaml :=
  .map [(includeKey, listNode (c.patterns.filter (·.isInclude))),
    (excludeKey, listNode (c.patterns.filter (!·.isInclude))),
    (pageSizeKey, .scalar (w.yaml.sizeText c.adapterPageSize)),
    (interceptionKey, .scalar (w.yaml.boolText c.interceptionEnabled))]

/-- `CaeConfig::ToYamlString`. -/
def World.toYamlString (w : World τ) (c : CaeConfig) : τ := w.yaml.emit (w.toYaml c)

/-! ### Changing the patterns -/

/-- `CaeConfig::AddIncludePattern` and `CaeConfig::AddExcludePattern`. -/
def CaeConfig.addPattern (std : PatternSort) (isInclude : Bool) (pattern : List Char)
    (c : CaeConfig) : CaeConfig :=
  if pattern.isEmpty then c
  else { c with patterns := std.sort (c.patterns ++ [⟨pattern, isInclude⟩]) }

def CaeConfig.addIncludePattern (std : PatternSort) (pattern : List Char) (c : CaeConfig) :
    CaeConfig :=
  c.addPattern std true pattern

def CaeConfig.addExcludePattern (std : PatternSort) (pattern : List Char) (c : CaeConfig) :
    CaeConfig :=
  c.addPattern std false pattern

/-- `CaeConfig::ClearPatterns`. -/
def CaeConfig.clearPatterns (c : CaeConfig) : CaeConfig := { c with patterns := [] }

/-! ### Tracking -/

def systemPaths : List (List Char) :=
  ["/lib", "/usr/lib", "/lib64", "/usr/lib64", "/bin", "/usr/bin", "/sbin", "/usr/sbin", "/etc",
    "/dev", "/sys", "/proc", "/run", "/boot"].map String.toList

def userPaths : List (List Char) :=
  ["/tmp", "/scratch", "/data", "/home", "/mnt", "/var/tmp"].map String.toList

/-- The smart defaults, for a configuration without patterns. -/
def trackedByDefault (path : List Char) : Bool :=
  !systemPaths.any (·.isPrefixOf path) && userPaths.any (·.isPrefixOf path)

/-- A pattern that is no regular expression matches nothing. -/
def World.matchesPath (w : World τ) (path : List Char) (p : PathPattern) : Bool :=
  w.regexSearch p.pattern path == some true

/-- What the patterns decide; a path that none matches is excluded. -/
def World.verdict (w : World τ) (patterns : List PathPattern) (path : List Char) : Bool :=
  ((patterns.find? (w.matchesPath path)).map PathPattern.isInclude).getD false

/-- `CaeConfig::IsPathTracked`. -/
def World.isPathTracked (w : World τ) (c : CaeConfig) (path : List Char) : Bool :=
  if !c.interceptionEnabled then false
  else if w.cteManager = some false then false
  else if c.patterns.isEmpty then trackedByDefault path
  else w.verdict c.patterns path

end IowarpCore.Adapter
