/-
The tasks of the engine and where they go: `Runtime::ScheduleTask` of `core_runtime.cc`.

Blob tasks go to the container that a hash of tag and name picks.  `GetOrCreateTag` stays
where its name is known and else goes to the container the name hashes to.  Tasks the
function does not mention keep the query they were sent with; `DelTag` is one of them.
-/
import IowarpCore.Cluster.Routing
import IowarpCore.Cte.Tag

namespace IowarpCore
namespace Cte

/-- A task of the engine with what its sender filled in. -/
inductive Task where
  | getOrCreateTag (tagName : Bytes) (preferredId : TagId)
  | delTag (tagId : TagId) (tagName : Bytes)
  | putBlob (t : PutBlobTask)
  | getBlob (t : GetBlobTask)
  | delBlob (tagId : TagId) (blobName : Bytes)
  | reorganizeBlob (t : ReorganizeBlobTask)
  | flushData (level : Int)

/-- What the engine does for a task: its return code. -/
def Task.resume (cfg : Config) : Task → TaskResume UInt32
  | getOrCreateTag tagName preferredId => do
      let _ ← Cte.getOrCreateTag cfg tagName preferredId
      return 0
  | delTag tagId tagName => Cte.delTag tagId tagName
  | putBlob t => Cte.putBlob cfg t
  | getBlob t => do
      let r ← Cte.getBlob t
      return r.1
  | delBlob tagId blobName => Cte.delBlob tagId blobName
  | reorganizeBlob t => Cte.reorganizeBlob cfg t
  | flushData level => do
      let _ ← Cte.flushData cfg level
      return 0

/-- As `resume`, with the `tag_id_` that the two tag tasks leave: the id of the tag, and the
id that was meant. -/
def Task.reply (cfg : Config) : Task → TaskResume (UInt32 × TagId)
  | getOrCreateTag tagName preferredId => do
      let tagId ← Cte.getOrCreateTag cfg tagName preferredId
      return (0, tagId)
  | delTag tagId tagName => do
      let c ← TaskResume.readContainer
      let rc ← Cte.delTag tagId tagName
      return (rc, (c.resolveTag tagId tagName).getD tagId)
  | t => do
      let rc ← t.resume cfg
      return (rc, UniqueId.null)

/-- `std::hash` of a string and of a number, cut to 32 bits. -/
structure Hashers where
  string : Bytes → UInt32
  u32 : UInt32 → UInt32

/-- `HashBlobToContainer`. -/
def Hashers.hashBlobToContainer (h : Hashers) (tagId : TagId) (blobName : Bytes) : PoolQuery :=
  let hashValue := h.u32 tagId.major
  let combine (hashValue hash : UInt32) : UInt32 :=
    hashValue ^^^ (hash + 0x9e3779b9 + hashValue <<< (6 : UInt32) + hashValue >>> (2 : UInt32))
  PoolQuery.directHash
    (combine (combine (h.u32 tagId.major) (h.u32 tagId.minor)) (h.string blobName))

/-- `ScheduleTask` of a container, for a task with a query of its own. -/
def Task.scheduleTask (h : Hashers) (c : Container) (t : Task) (poolQuery : PoolQuery) :
    PoolQuery :=
  match t with
  | getOrCreateTag tagName _ =>
    if c.tagNameToId.contains tagName then PoolQuery.localQuery
    else PoolQuery.directHash (h.string tagName)
  | putBlob t => h.hashBlobToContainer t.tagId t.blobName
  | getBlob t => h.hashBlobToContainer t.tagId t.blobName
  | reorganizeBlob t => h.hashBlobToContainer t.tagId t.blobName
  | delBlob tagId blobName => h.hashBlobToContainer tagId blobName
  | delTag _ _ | flushData _ => poolQuery

end Cte
end IowarpCore
