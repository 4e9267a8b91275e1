/-
The tag operations of `core_runtime.cc`: `GetOrCreateTag` and `DelTag`.

A tag has a name and an id, kept in two maps.  An id comes from the caller, if it asks
for one that no tag of this node has, or from a counter.  A task that carries the id of
another node is a lookup coming back from there: its name is remembered without an
entry in the second map.
-/
import IowarpCore.Cte.Blob

namespace IowarpCore
namespace Cte

/-- `GenerateNewTagId`. -/
def Container.generateNewTagId (cfg : Config) (c : Container) : TagId × Container :=
  (⟨cfg.nodeId, c.nextTagIdMinor⟩, { c with nextTagIdMinor := c.nextTagIdMinor + 1 })

/-- The id of a new tag: the preferred one if it is free, else a generated one. -/
def Container.newTagId (cfg : Config) (c : Container) (preferredId : TagId) : TagId × Container :=
  if (preferredId.major ≠ 0 ∨ preferredId.minor ≠ 0) ∧ ¬c.tagIdToInfo.contains preferredId then
    (preferredId, c)
  else c.generateNewTagId cfg

/-- Put a tag into both maps. -/
def Container.putTag (c : Container) (tagName : Bytes) (tagId : TagId) (totalSize : UInt64) :
    Container :=
  { c with
    tagNameToId := c.tagNameToId.insertOrAssign tagName tagId
    tagIdToInfo := c.tagIdToInfo.insertOrAssign tagId ⟨tagName, tagId, totalSize⟩ }

/-- `GetOrAssignTagId`. -/
def getOrAssignTagId (cfg : Config) (tagName : Bytes) (preferredId : TagId) : TaskResume TagId := do
  let c ← TaskResume.readContainer
  match c.tagNameToId.find? tagName with
  | some tagId => return tagId
  | none => do
      let (tagId, c') := c.newTagId cfg preferredId
      TaskResume.modifyContainer fun _ => c'.putTag tagName tagId 0
      logTagTxn (.createTag ⟨tagName, tagId.major, tagId.minor⟩)
      return tagId

/-- The task carries an id that another node gave out. -/
def isRemoteTag (cfg : Config) (preferredId : TagId) : Bool :=
  preferredId.major ≠ 0 && preferredId.major ≠ cfg.nodeId

/-- `GetOrCreateTag`: the id it returns.  Its return code is always 0. -/
def getOrCreateTag (cfg : Config) (tagName : Bytes) (preferredId : TagId) : TaskResume TagId :=
  if isRemoteTag cfg preferredId then do
    TaskResume.modifyContainer fun c =>
      match c.tagNameToId.find? tagName with
      | none => { c with tagNameToId := c.tagNameToId.insertOrAssign tagName preferredId }
      | some _ => c
    return preferredId
  else getOrAssignTagId cfg tagName preferredId

/-! ### DelTag -/

/-- Step 1: the id that is meant, by id or by name. -/
def Container.resolveTag (c : Container) (tagId : TagId) (tagName : Bytes) : Option TagId :=
  if tagId.isNull then
    if tagName.isEmpty then none else c.tagNameToId.find? tagName
  else some tagId

/-- The `DelBlob` sub-tasks, one after another; failures are passed over. -/
def delBlobs (tagId : TagId) : List Bytes → TaskResume Unit
  | [] => return ()
  | blobName :: rest => do
      let _ ← delBlob tagId blobName
      delBlobs tagId rest

/-- There is a blob of the tag, or the id is no longer that of the name. -/
def Container.tagChanged (c : Container) (tagId : TagId) (tagName : Bytes) : Bool :=
  c.blobs.entries.any (fun e => hasTagPrefix tagId e.1) ||
    (c.tagIdToInfo.find? tagId).map TagInfo.tagName != some tagName

/-- Steps 4 and 5: what is left of the tag's blobs, and its name. -/
def Container.forgetTag (c : Container) (tagId : TagId) : Container :=
  let c := { c with blobs := c.blobs.filter fun key _ => !hasTagPrefix tagId key }
  match c.tagIdToInfo.find? tagId with
  | none => c
  | some info =>
    if info.tagName.isEmpty then c
    else { c with tagNameToId := c.tagNameToId.erase info.tagName }

/-- `DelTag`: its return code. -/
def delTag (tagId : TagId) (tagName : Bytes) : TaskResume UInt32 := do
  let c ← TaskResume.readContainer
  match c.resolveTag tagId tagName with
  | none => return 1
  | some tagId =>
    match c.tagIdToInfo.find? tagId with
    | none => return 1
    | some info => do
        let entries ← Co.shuffle c.blobs.entries
        let blobNames := (entries.filter fun e => hasTagPrefix tagId e.1).map fun e =>
          e.2.info.blobName
        delBlobs tagId blobNames
        TaskResume.modifyContainer fun c =>
          { c with raced := c.raced || c.tagChanged tagId info.tagName }
        TaskResume.modifyContainer (·.forgetTag tagId)
        logTagTxn (.delTag ⟨info.tagName, tagId.major, tagId.minor⟩)
        TaskResume.modifyContainer fun c => { c with tagIdToInfo := c.tagIdToInfo.erase tagId }
        return 0

end Cte
end IowarpCore
