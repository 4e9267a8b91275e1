/-
What a blob is: a string of bytes.

The bytes of a blob are the bytes of its blocks, one block behind the other, so the
block list says for every offset of the blob which position of which device holds it.
This is the meaning `ReadData` and `ModifyExistingData` give to a block list, and it is
in these terms that the results speak about contents.
-/
import IowarpCore.Cte.Blob

namespace IowarpCore
namespace Cte

open Bdev (Devices)

/-- The number of bytes in the blocks. -/
def byteLength (blocks : List BlobBlock) : Nat := (blocks.map fun b => b.size.toNat).sum

/-- The pool and the position in it of the byte at an offset. -/
def locate : List BlobBlock → Nat → Option (PoolId × Nat)
  | [], _ => none
  | b :: bs, i =>
    if i < b.size.toNat then some (b.bdevClient, b.targetOffset.toNat + i)
    else locate bs (i - b.size.toNat)

/-- The byte at an offset, where `bytes` says what the devices hold. -/
def readAt (bytes : PoolId → Nat → UInt8) (blocks : List BlobBlock) (i : Nat) : Option UInt8 :=
  (locate blocks i).map fun x => bytes x.1 x.2

@[simp] theorem byteLength_nil : byteLength [] = 0 := rfl

@[simp] theorem byteLength_cons (b : BlobBlock) (bs : List BlobBlock) :
    byteLength (b :: bs) = b.size.toNat + byteLength bs := by
  simp [byteLength]

@[simp] theorem byteLength_append (bs cs : List BlobBlock) :
    byteLength (bs ++ cs) = byteLength bs + byteLength cs := by
  simp [byteLength]

theorem locate_append (bs cs : List BlobBlock) (i : Nat) :
    locate (bs ++ cs) i =
      if i < byteLength bs then locate bs i else locate cs (i - byteLength bs) := by
  induction bs generalizing i with
  | nil => simp
  | cons b bs ih =>
    rw [List.cons_append, locate, locate, byteLength_cons]
    by_cases h : i < b.size.toNat
    · have : i < b.size.toNat + byteLength bs := by omega
      simp [h, this]
    · rw [if_neg h, if_neg h, ih]
      by_cases h' : i < b.size.toNat + byteLength bs
      · rw [if_pos h', if_pos (by omega)]
      · rw [if_neg h', if_neg (by omega)]
        congr 1
        omega

/-- Every offset inside the blob is somewhere. -/
theorem locate_isSome {bs : List BlobBlock} {i : Nat} :
    (locate bs i).isSome = true ↔ i < byteLength bs := by
  induction bs generalizing i with
  | nil => simp [locate]
  | cons b bs ih =>
    rw [locate, byteLength_cons]
    by_cases h : i < b.size.toNat
    · simp only [h, if_true, Option.isSome_some, true_iff]
      omega
    · rw [if_neg h, ih]
      omega

theorem locate_eq_none {bs : List BlobBlock} {i : Nat} :
    locate bs i = none ↔ byteLength bs ≤ i := by
  rw [← Option.not_isSome_iff_eq_none, locate_isSome]
  omega

/-- A located byte lies in one of the blocks. -/
theorem locate_mem {bs : List BlobBlock} {i : Nat} {p : PoolId} {a : Nat}
    (h : locate bs i = some (p, a)) :
    ∃ b ∈ bs, b.bdevClient = p ∧ b.targetOffset.toNat ≤ a ∧
      a < b.targetOffset.toNat + b.size.toNat := by
  induction bs generalizing i with
  | nil => simp [locate] at h
  | cons b bs ih =>
    rw [locate] at h
    by_cases hi : i < b.size.toNat
    · simp only [hi, if_true, Option.some.injEq, Prod.mk.injEq] at h
      exact ⟨b, by simp, h.1, by omega, by omega⟩
    · rw [if_neg hi] at h
      obtain ⟨b', hmem, hrest⟩ := ih h
      exact ⟨b', List.mem_cons_of_mem _ hmem, hrest⟩

/-! ### A blob in the container -/

/-- The blocks of a blob, if it exists. -/
def Container.blocks? (c : Container) (key : Bytes) : Option (List BlobBlock) :=
  (c.blobs.find? key).map fun node => node.info.blocks

/-- The byte of a blob at an offset. -/
def contents (w : World Container Devices) (key : Bytes) (i : Nat) : Option UInt8 :=
  (w.c.blocks? key).bind fun blocks => readAt w.d.byteAt blocks i

/-- The size of a blob; a blob that does not exist has none. -/
def Container.blobSize (c : Container) (key : Bytes) : Nat :=
  ((c.blocks? key).map byteLength).getD 0

theorem blobSize_of_find {c : Container} {key : Bytes} {node : BlobNode}
    (h : c.blobs.find? key = some node) : c.blobSize key = byteLength node.info.blocks := by
  rw [Container.blobSize, Container.blocks?, h]
  rfl

theorem blobSize_of_blocks {c : Container} {key : Bytes} {blocks : List BlobBlock}
    (h : c.blocks? key = some blocks) : c.blobSize key = byteLength blocks := by
  rw [Container.blobSize, h]
  rfl

theorem contents_of_blocks {w : World Container Devices} {key : Bytes}
    {blocks : List BlobBlock} (h : w.c.blocks? key = some blocks) (i : Nat) :
    contents w key i = readAt w.d.byteAt blocks i := by
  rw [contents, h]
  rfl

/-- `GetTotalSize` is the number of bytes, as long as that fits 64 bits. -/
theorem totalSizeOf_toNat (blocks : List BlobBlock) :
    (totalSizeOf blocks).toNat = byteLength blocks % 2 ^ 64 := by
  have hfold : ∀ (bs : List BlobBlock) (start : UInt64),
      (bs.foldl (fun total b => total + b.size) start).toNat =
        (start.toNat + byteLength bs) % 2 ^ 64 := by
    intro bs
    induction bs with
    | nil =>
      intro start
      have := start.toNat_lt
      rw [List.foldl_nil, byteLength_nil]
      omega
    | cons b bs ih =>
      intro start
      rw [List.foldl_cons, ih, byteLength_cons, UInt64.toNat_add]
      omega
  have h := hfold blocks 0
  simpa [totalSizeOf] using h

theorem getTotalSize_toNat {info : BlobInfo} (h : byteLength info.blocks < 2 ^ 64) :
    info.getTotalSize.toNat = byteLength info.blocks := by
  rw [BlobInfo.getTotalSize, totalSizeOf_toNat, Nat.mod_eq_of_lt h]

end Cte
end IowarpCore
