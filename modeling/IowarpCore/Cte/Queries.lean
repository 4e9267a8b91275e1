/-
The handlers of `core_runtime.cc` that answer from the maps of one container: `GetTagSize`,
`GetContainedBlobs`, `TagQuery`, `BlobQuery`, `GetBlobScore`, `GetBlobSize` and `GetBlobInfo`.

Each reads the fields of its task and gives its outputs and its return code; where an
error path leaves an output alone, that is what the field held.  A regular expression is
compiled by the standard library, which throws on a pattern it does not take.
-/
import IowarpCore.Cte.State
import IowarpCore.Cte.TaskTypes

namespace IowarpCore
namespace Cte

open Wire (GetTagSizeFields GetContainedBlobsFields TagQueryFields BlobQueryFields
  GetBlobScoreFields GetBlobSizeFields GetBlobInfoFields BlobBlockInfo)

/-- `std::regex` and `std::regex_match`: the strings a pattern matches, if it is one. -/
abbrev Regex := Bytes → Option (Bytes → Bool)

namespace Container

/-- `GetTagSize`. -/
def getTagSize (c : Container) (f : GetTagSizeFields) : UInt64 × UInt32 :=
  match c.tagIdToInfo.find? f.tagId with
  | none => (0, 1)
  | some info => (info.totalSize, 0)

/-- The names behind the tag's prefix, of all keys that have it. -/
def containedNames (c : Container) (tagId : TagId) : List Bytes :=
  (c.blobs.entries.filter fun e => hasTagPrefix tagId e.1).map fun e =>
    e.1.drop (tagPrefix tagId).length

/-- `GetContainedBlobs`. -/
def getContainedBlobs (c : Container) (f : GetContainedBlobsFields) : List Bytes × UInt32 :=
  match c.tagIdToInfo.find? f.tagId with
  | none => (f.blobNames, 1)
  | some _ => (c.containedNames f.tagId, 0)

/-- The tags whose names match. -/
def matchingTags (c : Container) (pattern : Bytes → Bool) : List (Bytes × TagId) :=
  c.tagNameToId.entries.filter fun e => pattern e.1

/-- `TagQuery`. -/
def tagQuery (regex : Regex) (c : Container) (f : TagQueryFields) :
    (UInt64 × List Bytes) × UInt32 :=
  match regex f.tagRegex with
  | none => ((f.totalTagsMatched, f.results), 1)
  | some pattern =>
    let matching := c.matchingTags pattern
    ((UInt64.ofNat matching.length,
      ({ f with results := [] }.append (matching.map Prod.fst)).results), 0)

/-- One blob that matches: counted, and listed if there is room. -/
def visit (tagName : Bytes) (f : BlobQueryFields) (blobName : Bytes) : BlobQueryFields :=
  let f := { f with totalBlobsMatched := f.totalBlobsMatched + 1 }
  if f.maxBlobs = 0 ∨ f.tagNames.length < f.maxBlobs.toNat then
    { f with tagNames := f.tagNames ++ [tagName], blobNames := f.blobNames ++ [blobName] }
  else f

/-- The blobs of one tag that match. -/
def visitTag (c : Container) (pattern : Bytes → Bool) (f : BlobQueryFields)
    (tag : Bytes × TagId) : BlobQueryFields :=
  ((c.containedNames tag.2).filter pattern).foldl (visit tag.1) f

/-- `BlobQuery`. -/
def blobQuery (regex : Regex) (c : Container) (f : BlobQueryFields) :
    (UInt64 × List Bytes × List Bytes) × UInt32 :=
  match regex f.tagRegex, regex f.blobRegex with
  | some tagPattern, some blobPattern =>
    let found := (c.matchingTags tagPattern).foldl (c.visitTag blobPattern)
      { f with tagNames := [], blobNames := [], totalBlobsMatched := 0 }
    ((found.totalBlobsMatched, found.tagNames, found.blobNames), 0)
  | _, _ => ((f.totalBlobsMatched, f.tagNames, f.blobNames), 1)

/-- `GetBlobScore`. -/
def getBlobScore (c : Container) (f : GetBlobScoreFields) : F32 × UInt32 :=
  if f.blobName.isEmpty then (f.score, 1)
  else
    match c.blobs.find? (compositeKey f.tagId f.blobName) with
    | none => (f.score, 1)
    | some node => (node.info.score, 0)

/-- `GetBlobSize`. -/
def getBlobSize (c : Container) (f : GetBlobSizeFields) : UInt64 × UInt32 :=
  if f.blobName.isEmpty then (f.size, 1)
  else
    match c.blobs.find? (compositeKey f.tagId f.blobName) with
    | none => (f.size, 1)
    | some node => (node.info.getTotalSize, 0)

/-- `GetBlobInfo`; listing the blocks is disabled. -/
def getBlobInfo (c : Container) (f : GetBlobInfoFields) :
    (F32 × UInt64 × List BlobBlockInfo) × UInt32 :=
  if f.blobName.isEmpty then ((f.score, f.totalSize, f.blocks), 1)
  else
    match c.blobs.find? (compositeKey f.tagId f.blobName) with
    | none => ((f.score, f.totalSize, f.blocks), 2)
    | some node => ((node.info.score, node.info.getTotalSize, []), 0)

end Container

end Cte
end IowarpCore
