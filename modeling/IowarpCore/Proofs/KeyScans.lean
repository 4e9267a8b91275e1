/-
The scans over the blob map find the blobs of one tag and no others.

Everything that lists, counts or erases the blobs of a tag compares the front of a key with
the tag's prefix, and `FlushData` cuts a key at its first two dots.  Both undo what
`CreateNewBlob` did, whatever the blob is called: the digits of a number end at the first
dot, so 1.2. is not the front of 1.23., and dots in a name come after the two that count.
-/
import IowarpCore.Cte.Metadata
import IowarpCore.Cte.Queries
import IowarpCore.Proofs.Keys

namespace IowarpCore
namespace Cte

/-- A blob with the tag and the name its key was built from. -/
structure BuiltBlob where
  tagId : TagId
  blobName : Bytes
  node : BlobNode

/-- The entry `CreateNewBlob` makes. -/
def BuiltBlob.entry (b : BuiltBlob) : Bytes × BlobNode := (compositeKey b.tagId b.blobName, b.node)

/-- The blobs of a tag. -/
def ofTag (id : TagId) (blobs : List BuiltBlob) : List BuiltBlob :=
  blobs.filter fun b => b.tagId = id

/-- The blobs of all other tags. -/
def notOfTag (id : TagId) (blobs : List BuiltBlob) : List BuiltBlob :=
  blobs.filter fun b => b.tagId ≠ id

/-- What the scans find in a container with the given blobs. -/
structure ScansExact (c : Container) (blobs : List BuiltBlob) : Prop where
  /-- `DelTag`, the blobs it deletes one by one -/
  deleted : ∀ id, c.blobs.entries.filter (fun e => hasTagPrefix id e.1) =
    (ofTag id blobs).map BuiltBlob.entry
  /-- `DelTag`, the keys it erases at the end -/
  forgotten : ∀ id, (c.forgetTag id).blobs.entries = (notOfTag id blobs).map BuiltBlob.entry
  /-- `GetContainedBlobs` -/
  contained : ∀ id, c.containedNames id = (ofTag id blobs).map BuiltBlob.blobName
  /-- `BlobQuery`, the blobs of one of its tags -/
  visited : ∀ pattern fields tagName id, c.visitTag pattern fields (tagName, id) =
    (((ofTag id blobs).map BuiltBlob.blobName).filter pattern).foldl (Container.visit tagName) fields
  /-- `ReplayTransactionLogs`, the record of a deleted tag -/
  replayed : ∀ tagName id maxMinor,
    (replayTagTxn (c, maxMinor) (.delTag ⟨tagName, id.major, id.minor⟩)).1.blobs.entries =
      (notOfTag id blobs).map BuiltBlob.entry
  /-- `ReplayTransactionLogs`, the sizes it adds up in the end -/
  totals : ∀ id, c.blobTotal id =
    (ofTag id blobs).foldl (fun total b => total + b.node.info.getTotalSize) 0
  /-- `FlushData`, the tags it reads off the keys -/
  flushed : ∀ level, (c.blobsToFlush level c.blobs.entries).map FlushEntry.tagId =
    (blobs.filter fun b => b.node.info.blocks.any (c.isBelow level)).map BuiltBlob.tagId

/-- What is behind the prefix of a key is the name. -/
theorem drop_compositeKey (id : TagId) (blobName : Bytes) :
    (compositeKey id blobName).drop (tagPrefix id).length = blobName :=
  List.drop_left

section

variable {c : Container} {blobs : List BuiltBlob}
  (hbuilt : c.blobs.entries = blobs.map BuiltBlob.entry)

include hbuilt

theorem filter_hasTagPrefix (id : TagId) :
    c.blobs.entries.filter (fun e => hasTagPrefix id e.1) =
      (ofTag id blobs).map BuiltBlob.entry := by
  rw [hbuilt, List.filter_map, ofTag]
  congr 1
  refine List.filter_congr fun b _ => ?_
  rw [Bool.eq_iff_iff, decide_eq_true_iff, eq_comm (a := b.tagId)]
  exact hasTagPrefix_compositeKey id b.tagId b.blobName

theorem filter_not_hasTagPrefix (id : TagId) :
    c.blobs.entries.filter (fun e => !hasTagPrefix id e.1) =
      (notOfTag id blobs).map BuiltBlob.entry := by
  rw [hbuilt, List.filter_map, notOfTag]
  congr 1
  refine List.filter_congr fun b _ => ?_
  rw [Bool.eq_iff_iff, decide_eq_true_iff, Function.comp_apply, Bool.not_eq_true', ne_comm,
    Ne, ← hasTagPrefix_compositeKey id b.tagId b.blobName, Bool.not_eq_true]
  rfl

theorem containedNames_of_built (id : TagId) :
    c.containedNames id = (ofTag id blobs).map BuiltBlob.blobName := by
  rw [Container.containedNames, filter_hasTagPrefix hbuilt, List.map_map]
  refine List.map_congr_left fun b hb => ?_
  have htag : b.tagId = id := of_decide_eq_true (List.mem_filter.mp hb).2
  rw [← htag]
  exact drop_compositeKey b.tagId b.blobName

theorem forgetTag_of_built (id : TagId) :
    (c.forgetTag id).blobs.entries = (notOfTag id blobs).map BuiltBlob.entry := by
  rw [← filter_not_hasTagPrefix hbuilt]
  simp only [Container.forgetTag]
  cases c.tagIdToInfo.find? id with
  | none => rfl
  | some info =>
    dsimp only
    by_cases hname : info.tagName.isEmpty = true
    · rw [if_pos hname]
      rfl
    · rw [if_neg hname]
      rfl

theorem blobTotal_of_built (id : TagId) : c.blobTotal id =
    (ofTag id blobs).foldl (fun total b => total + b.node.info.getTotalSize) 0 := by
  rw [Container.blobTotal, ← List.foldl_filter, filter_hasTagPrefix hbuilt, List.foldl_map]
  rfl

theorem flushed_of_built (level : Int) :
    (c.blobsToFlush level c.blobs.entries).map FlushEntry.tagId =
      (blobs.filter fun b => b.node.info.blocks.any (c.isBelow level)).map BuiltBlob.tagId := by
  rw [Container.blobsToFlush, hbuilt, List.filter_map, List.map_map, List.map_map]
  refine List.map_congr_left fun b _ => ?_
  exact parseTagId_compositeKey b.tagId b.blobName

theorem scansExact : ScansExact c blobs where
  deleted := filter_hasTagPrefix hbuilt
  forgotten := forgetTag_of_built hbuilt
  contained := containedNames_of_built hbuilt
  visited pattern fields tagName id := by
    rw [Container.visitTag, containedNames_of_built hbuilt]
  replayed _ id _ := filter_not_hasTagPrefix hbuilt id
  totals := blobTotal_of_built hbuilt
  flushed := flushed_of_built hbuilt

end

/--
**A key says what it was built from.**  It determines the tag and the name, it starts with
the prefix of its own tag and of no other, the name is what follows, and `FlushData` reads
the tag back.  So every scan of a container finds the blobs of its tag.
-/
theorem composite_keys (id : TagId) (blobName : Bytes) :
    (∀ id' blobName', compositeKey id blobName = compositeKey id' blobName' ↔
      id = id' ∧ blobName = blobName') ∧
    (∀ id', hasTagPrefix id' (compositeKey id blobName) = true ↔ id' = id) ∧
    (compositeKey id blobName).drop (tagPrefix id).length = blobName ∧
    parseTagId (compositeKey id blobName) = id ∧
    ∀ (c : Container) (blobs : List BuiltBlob),
      c.blobs.entries = blobs.map BuiltBlob.entry → ScansExact c blobs := by
  refine ⟨fun id' blobName' => ⟨compositeKey_inj, ?_⟩, fun id' => ?_, drop_compositeKey id blobName,
    parseTagId_compositeKey id blobName, fun c blobs => scansExact⟩
  · rintro ⟨hid, hname⟩
    rw [hid, hname]
  · exact hasTagPrefix_compositeKey id' id blobName

/-- A container with blobs of the tags 1.2 and 1.23, one of them with dots and digits for a
name. -/
def dottedContainer : Container :=
  { Container.create ⟨AMap.empty, fun _ he => by cases he⟩ 1 with
    blobs := ⟨[(compositeKey ⟨1, 2⟩ [51, 46, 52], default), (compositeKey ⟨1, 23⟩ [46], default)],
      by decide⟩ }

theorem composite_keys_dotted : dottedContainer.containedNames ⟨1, 2⟩ = [[51, 46, 52]] :=
  ((composite_keys ⟨1, 2⟩ [51, 46, 52]).2.2.2.2 dottedContainer
    [⟨⟨1, 2⟩, [51, 46, 52], default⟩, ⟨⟨1, 23⟩, [46], default⟩] rfl).contained ⟨1, 2⟩

end Cte
end IowarpCore
