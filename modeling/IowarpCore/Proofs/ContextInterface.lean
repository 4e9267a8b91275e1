/-
What `ContextRetrieve` packs, and when it depends on the batches.

The blobs that a run packs are the blobs up to the first that no longer fits and, behind
them, the blobs that later batches find room for (`packed_eq`).  A run returns what it is for
exactly if the second part is empty and none of the first part fails: each blob packed has
bytes of its own, so a length decides it.
-/
import IowarpCore.Cee.ContextInterface

namespace IowarpCore

namespace ContextInterface

/-- A blob with something to read. -/
structure Blob where
  size : UInt64
  reply : GetBlobReply size

/-- A name without a tag or with an empty blob is passed over. -/
def CteClient.blob? (cte : CteClient) (name : Bytes × Bytes) : Option Blob :=
  let tagId := cte.getOrCreateTag name.1
  if tagId.isNull then none
  else
    let blobSize := cte.getBlobSize tagId name.2
    if blobSize = 0 then none else some ⟨blobSize, cte.getBlob tagId name.2 blobSize⟩

def CteClient.blobs (cte : CteClient) (names : List (Bytes × Bytes)) : List Blob :=
  names.filterMap cte.blob?

/-- How much of the buffer the blobs take. -/
def sizes (blobs : List Blob) : Nat := (blobs.map fun blob => blob.size.toNat).sum

/-- What the reads leave, one behind the other. -/
def contents (blobs : List Blob) : Bytes := (blobs.map fun blob => blob.reply.data).flatten

/-- What the blobs contribute to the context: nothing if the read fails. -/
def contribution (blobs : List Blob) : Bytes :=
  (blobs.map fun blob => if blob.reply.returnCode = 0 then blob.reply.data else []).flatten

variable {cte : CteClient} {maxContextSize : UInt64}

variable {blob : Blob} {name : Bytes × Bytes} {bufferOffset : UInt64} {contextBuffer : Bytes}
  {blobs : List Blob} {names later : List (Bytes × Bytes)}
  {batchSize fuel batchStart offset stop : Nat}

theorem blob_pos (h : cte.blob? name = some blob) :
    0 < blob.size.toNat := by
  unfold CteClient.blob? at h
  simp only at h
  split at h
  case isTrue => cases h
  case isFalse =>
    split at h
    case isTrue => cases h
    case isFalse hsize =>
      obtain rfl := Option.some.inj h
      refine Nat.pos_of_ne_zero fun hzero => hsize ?_
      exact UInt64.toNat_inj.mp hzero

theorem length_contents (blobs : List Blob) : (contents blobs).length = sizes blobs := by
  rw [contents, sizes, List.length_flatten, List.map_map]
  congr 1
  exact List.map_congr_left fun blob _ => blob.reply.length

theorem sizes_append (blobs later : List Blob) : sizes (blobs ++ later) = sizes blobs + sizes later := by
  rw [sizes, List.map_append, List.sum_append]
  rfl

theorem contents_append (blobs later : List Blob) :
    contents (blobs ++ later) = contents blobs ++ contents later := by
  rw [contents, List.map_append, List.flatten_append]
  rfl

/-! ### The reads of a batch -/

/-- The reads of blobs that lie one behind the other. -/
def layout : UInt64 → List Blob → List GetBlobTask
  | _, [] => []
  | bufferOffset, blob :: blobs =>
    ⟨bufferOffset, blob.size, blob.reply⟩ :: layout (bufferOffset + blob.size) blobs

def offsetAfter (bufferOffset : UInt64) (blobs : List Blob) : UInt64 :=
  blobs.foldl (fun offset blob => offset + blob.size) bufferOffset

/-- The blobs of a batch that pass the check. -/
def chosen (cte : CteClient) (maxContextSize : UInt64) : UInt64 → List (Bytes × Bytes) → List Blob
  | _, [] => []
  | bufferOffset, name :: names =>
    match cte.blob? name with
    | none => chosen cte maxContextSize bufferOffset names
    | some blob =>
      if bufferOffset + blob.size > maxContextSize then []
      else blob :: chosen cte maxContextSize (bufferOffset + blob.size) names

theorem schedule_eq (bufferOffset : UInt64) (names : List (Bytes × Bytes)) :
    schedule cte maxContextSize bufferOffset names =
      (layout bufferOffset (chosen cte maxContextSize bufferOffset names),
        offsetAfter bufferOffset (chosen cte maxContextSize bufferOffset names)) := by
  induction names generalizing bufferOffset with
  | nil => rfl
  | cons name names ih =>
    obtain ⟨tagName, blobName⟩ := name
    rw [schedule, chosen, CteClient.blob?]
    by_cases hnull : (cte.getOrCreateTag tagName).isNull = true
    · simp only [if_pos hnull]
      exact ih bufferOffset
    by_cases hsize : cte.getBlobSize (cte.getOrCreateTag tagName) blobName = 0
    · simp only [if_neg hnull, if_pos hsize]
      exact ih bufferOffset
    simp only [if_neg hnull, if_neg hsize]
    split
    · rfl
    · rw [ih]
      rfl

theorem toNat_next {n : Nat} (bufferOffset size : UInt64)
    (hfits : bufferOffset.toNat + size.toNat ≤ n) (hn : n < 2 ^ 64) :
    (bufferOffset + size).toNat = bufferOffset.toNat + size.toNat := by
  rw [UInt64.toNat_add, Nat.mod_eq_of_lt (by omega)]

/-- A read that lies inside the buffer. -/
theorem wait_inside (hfits : bufferOffset.toNat + blob.size.toNat ≤ contextBuffer.length) :
    ∃ contextBuffer', GetBlobTask.wait contextBuffer ⟨bufferOffset, blob.size, blob.reply⟩ =
        some contextBuffer' ∧
      contextBuffer'.length = contextBuffer.length ∧
      contextBuffer'.take (bufferOffset.toNat + blob.size.toNat) =
        contextBuffer.take bufferOffset.toNat ++ blob.reply.data := by
  have hfront : (contextBuffer.take bufferOffset.toNat ++ blob.reply.data).length =
      bufferOffset.toNat + blob.size.toNat := by
    rw [List.length_append, List.length_take, blob.reply.length]
    omega
  refine ⟨_, if_pos hfits, ?_, ?_⟩
  · rw [List.length_append, hfront, List.length_drop]
    exact Nat.add_sub_of_le hfits
  · rw [List.take_append_of_le_length (Nat.le_of_eq hfront.symm),
      List.take_of_length_le (Nat.le_of_eq hfront)]

/-- Reads that lie inside the buffer leave what they read behind what was there. -/
theorem wait_layout (contextBuffer : Bytes) (bufferOffset : UInt64)
    (hroom : bufferOffset.toNat + sizes blobs ≤ contextBuffer.length)
    (hlength : contextBuffer.length < 2 ^ 64) :
    ∃ contextBuffer', (layout bufferOffset blobs).foldlM GetBlobTask.wait contextBuffer =
        some contextBuffer' ∧
      contextBuffer'.length = contextBuffer.length ∧
      (offsetAfter bufferOffset blobs).toNat = bufferOffset.toNat + sizes blobs ∧
      contextBuffer'.take (bufferOffset.toNat + sizes blobs) =
        contextBuffer.take bufferOffset.toNat ++ contents blobs := by
  induction blobs generalizing contextBuffer bufferOffset with
  | nil => exact ⟨contextBuffer, rfl, rfl, rfl, (List.append_nil _).symm⟩
  | cons blob blobs ih =>
    have hsizes : sizes (blob :: blobs) = blob.size.toNat + sizes blobs := rfl
    have hcontents : contents (blob :: blobs) = blob.reply.data ++ contents blobs := rfl
    rw [hsizes] at hroom ⊢
    have hfits : bufferOffset.toNat + blob.size.toNat ≤ contextBuffer.length := by omega
    have hnext := toNat_next bufferOffset blob.size hfits hlength
    obtain ⟨first, hfirst, hsame, hfront⟩ := wait_inside hfits
    obtain ⟨last, hrest, hlast, hoffset, htake⟩ :=
      ih first (bufferOffset + blob.size) (by rw [hsame, hnext]; omega)
        (by rw [hsame]; exact hlength)
    rw [hnext, Nat.add_assoc] at hoffset htake
    refine ⟨last, ?_, hlast.trans hsame, hoffset, ?_⟩
    · rw [layout, List.foldlM_cons, hfirst]
      exact hrest
    · rw [htake, hfront, hcontents, List.append_assoc]

/-- Otherwise one of them does not. -/
theorem wait_layout_none (hstart : bufferOffset.toNat ≤ contextBuffer.length)
    (hroom : contextBuffer.length < bufferOffset.toNat + sizes blobs)
    (hlength : contextBuffer.length < 2 ^ 64) :
    (layout bufferOffset blobs).foldlM GetBlobTask.wait contextBuffer = none := by
  induction blobs generalizing contextBuffer bufferOffset with
  | nil => exact absurd hroom (Nat.not_lt_of_le hstart)
  | cons blob blobs ih =>
    have hsizes : sizes (blob :: blobs) = blob.size.toNat + sizes blobs := rfl
    rw [hsizes] at hroom
    rw [layout, List.foldlM_cons]
    by_cases hfits : bufferOffset.toNat + blob.size.toNat ≤ contextBuffer.length
    · have hnext := toNat_next bufferOffset blob.size hfits hlength
      obtain ⟨first, hfirst, hsame, -⟩ := wait_inside hfits
      rw [hfirst]
      exact ih (by rw [hsame, hnext]; exact hfits) (by rw [hsame, hnext]; omega)
        (by rw [hsame]; exact hlength)
    · have hfirst : GetBlobTask.wait contextBuffer ⟨bufferOffset, blob.size, blob.reply⟩ =
          none := if_neg hfits
      rw [hfirst]
      rfl

/-! ### All batches -/

/-- The blobs that all batches pack, of names that begin with a batch. -/
def packed (cte : CteClient) (maxContextSize : UInt64) (batchSize : Nat) :
    Nat → UInt64 → List (Bytes × Bytes) → List Blob
  | 0, _, _ => []
  | fuel + 1, bufferOffset, names =>
    let first := chosen cte maxContextSize bufferOffset (names.take batchSize)
    first ++ packed cte maxContextSize batchSize fuel (offsetAfter bufferOffset first)
      (names.drop batchSize)

theorem packed_nil (batchSize fuel : Nat) (bufferOffset : UInt64) :
    packed cte maxContextSize batchSize fuel bufferOffset [] = [] := by
  induction fuel generalizing bufferOffset with
  | zero => rfl
  | succ fuel ih =>
    rw [packed, List.take_nil, List.drop_nil]
    exact ih _

theorem chosen_pos
    (hblob : blob ∈ chosen cte maxContextSize bufferOffset names) : 0 < blob.size.toNat := by
  induction names generalizing bufferOffset with
  | nil => cases hblob
  | cons name names ih =>
    rw [chosen] at hblob
    cases hname : cte.blob? name with
    | none =>
      rw [hname] at hblob
      exact ih hblob
    | some first =>
      simp only [hname] at hblob
      split at hblob
      case isTrue => cases hblob
      case isFalse =>
        obtain rfl | hlater := List.mem_cons.mp hblob
        · exact blob_pos hname
        · exact ih hlater

theorem packed_pos (hblob : blob ∈ packed cte maxContextSize batchSize fuel bufferOffset names) :
    0 < blob.size.toNat := by
  induction fuel generalizing bufferOffset names with
  | zero => cases hblob
  | succ fuel ih =>
    obtain hfirst | hlater := List.mem_append.mp hblob
    · exact chosen_pos hfirst
    · exact ih hlater

/-- The string that is returned, if there is one. -/
def pack (context : Bytes) : List Bytes := if context = [] then [] else [context]

theorem pack_inj {context context' : Bytes} : pack context = pack context' ↔ context = context' := by
  constructor
  · intro h
    unfold pack at h
    split at h <;> split at h <;> simp_all
  · rintro rfl
    rfl

/-- **What the loop over the batches returns.** -/
theorem batches_eq (cte : CteClient) (maxContextSize : UInt64)
    {batchSize : UInt32} (hbatch : 0 < batchSize.toNat) (fuel : Nat)
    (hfuel : names.length ≤ batchStart + fuel * batchSize.toNat)
    (hstart : bufferOffset.toNat ≤ contextBuffer.length) (hlength : contextBuffer.length < 2 ^ 64) :
    batches cte maxContextSize names batchSize (fuel + 1) batchStart contextBuffer bufferOffset =
      let blobs := packed cte maxContextSize batchSize.toNat fuel bufferOffset (names.drop batchStart)
      some (if bufferOffset.toNat + sizes blobs ≤ contextBuffer.length then
        .returned (pack (contextBuffer.take bufferOffset.toNat ++ contents blobs))
        else .outOfBounds) := by
  induction fuel generalizing batchStart contextBuffer bufferOffset with
  | zero =>
    rw [batches, if_neg (by omega)]
    have hroom : bufferOffset.toNat + sizes [] ≤ contextBuffer.length := hstart
    simp only [packed, if_pos hroom, contents, List.map_nil, List.flatten_nil, List.append_nil]
    rfl
  | succ fuel ih =>
    rw [batches]
    by_cases hmore : batchStart < names.length
    · have hbatch' : (names.drop batchStart).take
          (min (batchStart + batchSize.toNat) names.length - batchStart) =
            (names.drop batchStart).take batchSize.toNat := by
        rw [List.take_eq_take_iff, List.length_drop]
        omega
      simp only [if_pos hmore, hbatch', schedule_eq, packed, sizes_append, contents_append]
      generalize hfirst : chosen cte maxContextSize bufferOffset
        ((names.drop batchStart).take batchSize.toNat) = first
      by_cases hroom : bufferOffset.toNat + sizes first ≤ contextBuffer.length
      · obtain ⟨contextBuffer', hwait, hsame, hoffset, htake⟩ :=
          wait_layout contextBuffer bufferOffset hroom hlength
        simp only [hwait]
        rw [ih (by rw [Nat.succ_mul] at hfuel; omega) (by rw [hoffset, hsame]; exact hroom)
          (by rw [hsame]; exact hlength), hoffset, htake, hsame, List.drop_drop]
        simp only [Nat.add_assoc, List.append_assoc]
      · have hwait := wait_layout_none hstart (Nat.lt_of_not_le hroom) hlength
        simp only [hwait]
        rw [if_neg (by omega)]
    · rw [if_neg hmore, List.drop_of_length_le (by omega), packed_nil]
      have hroom : bufferOffset.toNat + sizes [] ≤ contextBuffer.length := hstart
      simp only [if_pos hroom, contents, List.map_nil, List.flatten_nil, List.append_nil]
      rfl

theorem batches_mono {batchSize : UInt32} {r : Retrieval} (k : Nat)
    (h : batches cte maxContextSize names batchSize fuel batchStart contextBuffer bufferOffset =
      some r) :
    batches cte maxContextSize names batchSize (fuel + k) batchStart contextBuffer bufferOffset =
      some r := by
  induction fuel generalizing batchStart contextBuffer bufferOffset with
  | zero => cases h
  | succ fuel ih =>
    rw [Nat.succ_add]
    rw [batches] at h ⊢
    by_cases hmore : batchStart < names.length
    · simp only [if_pos hmore] at h ⊢
      cases hwait : (schedule cte maxContextSize bufferOffset ((names.drop batchStart).take
          (min (batchStart + batchSize.toNat) names.length - batchStart))).1.foldlM
            GetBlobTask.wait contextBuffer with
      | none =>
        rw [hwait] at h
        exact h
      | some contextBuffer' =>
        rw [hwait] at h
        exact ih h
    · rw [if_neg hmore] at h ⊢
      exact h

/-- With a batch size of 0 the loop does not end. -/
theorem batches_zero (hmore : batchStart < names.length) :
    batches cte maxContextSize names 0 fuel batchStart contextBuffer bufferOffset = none := by
  induction fuel generalizing contextBuffer bufferOffset with
  | zero => rfl
  | succ fuel ih =>
    have hempty : min (batchStart + (0 : UInt32).toNat) names.length - batchStart = 0 := by
      have hzero : (0 : UInt32).toNat = 0 := rfl
      omega
    rw [batches]
    simp only [if_pos hmore, hempty, List.take_zero]
    exact ih

/-! ### The blobs up to the first that no longer fits -/

/-- The names up to the first whose blob does not fit behind the others. -/
def fitting (cte : CteClient) (maxContextSize : UInt64) : Nat → List (Bytes × Bytes) →
    List (Bytes × Bytes)
  | _, [] => []
  | offset, name :: names =>
    match cte.blob? name with
    | none => name :: fitting cte maxContextSize offset names
    | some blob =>
      if offset + blob.size.toNat ≤ maxContextSize.toNat then
        name :: fitting cte maxContextSize (offset + blob.size.toNat) names
      else []

/-- No blob passes the check of the code before the offset changes. -/
def Blocked (cte : CteClient) (maxContextSize bufferOffset : UInt64) (names : List (Bytes × Bytes)) :
    Prop :=
  ∀ blob, (cte.blobs names).head? = some blob → bufferOffset + blob.size > maxContextSize

theorem blobs_cons_none (names : List (Bytes × Bytes))
    (h : cte.blob? name = none) : cte.blobs (name :: names) = cte.blobs names :=
  List.filterMap_cons_none h

theorem blobs_cons_some (names : List (Bytes × Bytes))
    (h : cte.blob? name = some blob) : cte.blobs (name :: names) = blob :: cte.blobs names :=
  List.filterMap_cons_some h

theorem blobs_append (names later : List (Bytes × Bytes)) :
    cte.blobs (names ++ later) = cte.blobs names ++ cte.blobs later :=
  List.filterMap_append

theorem blocked_nil (bufferOffset : UInt64) : Blocked cte maxContextSize bufferOffset [] := by
  intro blob hblob
  cases hblob

theorem blocked_append (hlater : Blocked cte maxContextSize bufferOffset later) :
    Blocked cte maxContextSize bufferOffset (names ++ later) ↔
      Blocked cte maxContextSize bufferOffset names := by
  unfold Blocked at hlater ⊢
  rw [blobs_append]
  cases hblobs : cte.blobs names with
  | nil =>
    rw [List.nil_append]
    exact iff_of_true hlater fun blob hblob => by cases hblob
  | cons blob blobs => exact Iff.rfl

theorem Blocked.of_append (h : Blocked cte maxContextSize bufferOffset (names ++ later)) :
    Blocked cte maxContextSize bufferOffset names := by
  intro blob hblob
  refine h blob ?_
  rw [blobs_append, List.head?_append, hblob]
  rfl

theorem chosen_eq_nil_iff (cte : CteClient) (maxContextSize bufferOffset : UInt64)
    (names : List (Bytes × Bytes)) :
    chosen cte maxContextSize bufferOffset names = [] ↔
      Blocked cte maxContextSize bufferOffset names := by
  induction names with
  | nil => exact iff_of_true rfl (blocked_nil bufferOffset)
  | cons name names ih =>
    rw [chosen]
    cases hblob : cte.blob? name with
    | none =>
      simp only
      rw [ih, Blocked, Blocked, blobs_cons_none names hblob]
    | some blob =>
      simp only
      rw [Blocked, blobs_cons_some names hblob]
      constructor
      · intro hnil blob' hhead
        obtain rfl : blob = blob' := Option.some.inj hhead
        by_contra hpass
        rw [if_neg hpass] at hnil
        cases hnil
      · intro hblocked
        exact if_pos (hblocked blob rfl)

/-- Later batches pack nothing exactly if each of them starts with a blob that is refused. -/
theorem packed_eq_nil_iff (hfuel : names.length ≤ fuel * batchSize) :
    packed cte maxContextSize batchSize fuel bufferOffset names = [] ↔
      ∀ k, Blocked cte maxContextSize bufferOffset (names.drop (k * batchSize)) := by
  induction fuel generalizing names with
  | zero =>
    rw [Nat.zero_mul, Nat.le_zero, List.length_eq_zero_iff] at hfuel
    rw [hfuel]
    refine iff_of_true rfl fun k => ?_
    rw [List.drop_nil]
    exact blocked_nil bufferOffset
  | succ fuel ih =>
    rw [Nat.succ_mul] at hfuel
    have hrest : (names.drop batchSize).length ≤ fuel * batchSize := by
      rw [List.length_drop]
      omega
    have hsplit := List.take_append_drop batchSize names
    rw [packed, List.append_eq_nil_iff, chosen_eq_nil_iff]
    constructor
    · rintro ⟨hfirst, hlater⟩ k
      rw [(chosen_eq_nil_iff cte maxContextSize bufferOffset _).mpr hfirst] at hlater
      have hblocked := (ih hrest).mp hlater
      cases k with
      | zero =>
        rw [Nat.zero_mul, List.drop_zero, ← hsplit, blocked_append]
        · exact hfirst
        · simpa only [Nat.zero_mul, List.drop_zero] using hblocked 0
      | succ k =>
        have hk := hblocked k
        rwa [List.drop_drop, Nat.add_comm, ← Nat.succ_mul] at hk
    · intro hblocked
      have hfirst : Blocked cte maxContextSize bufferOffset (names.take batchSize) := by
        have hzero := hblocked 0
        rw [Nat.zero_mul, List.drop_zero, ← hsplit] at hzero
        exact hzero.of_append
      refine ⟨hfirst, ?_⟩
      rw [(chosen_eq_nil_iff cte maxContextSize bufferOffset _).mpr hfirst]
      refine (ih hrest).mpr fun k => ?_
      rw [List.drop_drop, Nat.add_comm, ← Nat.succ_mul]
      exact hblocked (k + 1)

theorem toNat_offsetAfter (hlt : bufferOffset.toNat + sizes blobs < 2 ^ 64) :
    (offsetAfter bufferOffset blobs).toNat = bufferOffset.toNat + sizes blobs := by
  induction blobs generalizing bufferOffset with
  | nil => rfl
  | cons blob blobs ih =>
    have hsizes : sizes (blob :: blobs) = blob.size.toNat + sizes blobs := rfl
    rw [hsizes] at hlt ⊢
    have hnext := toNat_next bufferOffset blob.size (Nat.le_refl _) (by omega)
    rw [← Nat.add_assoc, ← hnext]
    exact ih (by rw [hnext]; omega)

theorem fitting_append_drop (cte : CteClient) (maxContextSize : UInt64) (offset : Nat) (names : List (Bytes × Bytes)) :
    fitting cte maxContextSize offset names ++
      names.drop (fitting cte maxContextSize offset names).length = names := by
  induction names generalizing offset with
  | nil => rfl
  | cons name names ih =>
    rw [fitting]
    cases cte.blob? name with
    | none => exact congrArg (List.cons name) (ih offset)
    | some blob =>
      simp only
      split
      · exact congrArg (List.cons name) (ih _)
      · rfl

/-- The blobs that fit do fit. -/
theorem sizes_fitting_le (cte : CteClient) (names : List (Bytes × Bytes))
    (hstart : offset ≤ maxContextSize.toNat) :
    offset + sizes (cte.blobs (fitting cte maxContextSize offset names)) ≤ maxContextSize.toNat := by
  induction names generalizing offset with
  | nil => exact hstart
  | cons name names ih =>
    rw [fitting]
    cases hblob : cte.blob? name with
    | none =>
      simp only [blobs_cons_none _ hblob]
      exact ih hstart
    | some blob =>
      simp only
      split
      case isTrue hfits =>
        rw [blobs_cons_some _ hblob]
        have hrest := ih hfits
        rw [Nat.add_assoc] at hrest
        exact hrest
      case isFalse => exact hstart

theorem fitting_append_of_all (hall : fitting cte maxContextSize offset names = names) :
    fitting cte maxContextSize offset (names ++ later) =
      names ++ fitting cte maxContextSize (offset + sizes (cte.blobs names)) later := by
  induction names generalizing offset with
  | nil => rfl
  | cons name names ih =>
    rw [List.cons_append]
    rw [fitting] at hall ⊢
    cases hblob : cte.blob? name with
    | none =>
      simp only [hblob, List.cons.injEq, true_and] at hall
      simp only [blobs_cons_none _ hblob]
      rw [ih hall]
      rfl
    | some blob =>
      simp only [hblob] at hall
      split at hall
      case isTrue hfits =>
        rw [List.cons.injEq] at hall
        simp only [if_pos hfits]
        rw [ih hall.2, blobs_cons_some _ hblob, Nat.add_assoc]
        rfl
      case isFalse => cases hall

theorem fitting_append_of_not
    (hnot : (fitting cte maxContextSize offset names).length < names.length) :
    fitting cte maxContextSize offset (names ++ later) = fitting cte maxContextSize offset names := by
  induction names generalizing offset with
  | nil => exact absurd hnot (Nat.lt_irrefl 0)
  | cons name names ih =>
    rw [List.cons_append]
    rw [fitting] at hnot ⊢
    rw [fitting]
    cases hblob : cte.blob? name with
    | none =>
      simp only [hblob, List.length_cons, Nat.add_lt_add_iff_right] at hnot
      simp only
      rw [ih hnot]
    | some blob =>
      simp only [hblob] at hnot
      simp only
      split
      case isTrue hfits =>
        rw [if_pos hfits, List.length_cons, List.length_cons, Nat.add_lt_add_iff_right] at hnot
        rw [ih hnot]
      case isFalse => rfl

/-- A batch packs the blobs that fit, and more only if a check wraps. -/
theorem chosen_eq (cte : CteClient) (bufferOffset : UInt64) (names : List (Bytes × Bytes))
    (hstart : bufferOffset.toNat ≤ maxContextSize.toNat) :
    let fit := fitting cte maxContextSize bufferOffset.toNat names
    ∃ extra, chosen cte maxContextSize bufferOffset names = cte.blobs fit ++ extra ∧
      (extra = [] ↔ Blocked cte maxContextSize (offsetAfter bufferOffset (cte.blobs fit))
        (names.drop fit.length)) := by
  induction names generalizing bufferOffset with
  | nil => exact ⟨[], rfl, iff_of_true rfl (blocked_nil bufferOffset)⟩
  | cons name names ih =>
    rw [fitting, chosen]
    cases hblob : cte.blob? name with
    | none =>
      simp only [blobs_cons_none _ hblob]
      exact ih bufferOffset hstart
    | some blob =>
      simp only
      by_cases hfits : bufferOffset.toNat + blob.size.toNat ≤ maxContextSize.toNat
      · have hnext := toNat_next bufferOffset blob.size hfits maxContextSize.toNat_lt
        have hpass : ¬ bufferOffset + blob.size > maxContextSize := by
          rw [gt_iff_lt, UInt64.lt_iff_toNat_lt, hnext]
          omega
        obtain ⟨extra, heq, hiff⟩ := ih (bufferOffset + blob.size) (by rw [hnext]; exact hfits)
        rw [hnext] at heq hiff
        rw [if_pos hfits, if_neg hpass, blobs_cons_some _ hblob, heq]
        exact ⟨extra, rfl, hiff⟩
      · rw [if_neg hfits]
        refine ⟨_, rfl, ?_⟩
        have hiff := chosen_eq_nil_iff cte maxContextSize bufferOffset (name :: names)
        rw [chosen, hblob] at hiff
        exact hiff

/-- The first blob that does not fit is refused, and so is the first of every batch behind it. -/
def Refused (cte : CteClient) (maxContextSize bufferOffset : UInt64) (batchSize : Nat)
    (names : List (Bytes × Bytes)) (stop : Nat) : Prop :=
  ∀ start, stop ≤ start → start = stop ∨ batchSize ∣ start →
    Blocked cte maxContextSize bufferOffset (names.drop start)

theorem refused_of_length_le (h : names.length ≤ stop) :
    Refused cte maxContextSize bufferOffset batchSize names stop := by
  intro start hstart _
  rw [List.drop_of_length_le (h.trans hstart)]
  exact blocked_nil bufferOffset

/-- A batch that fits as a whole can be left away. -/
theorem refused_drop :
    Refused cte maxContextSize bufferOffset batchSize names (batchSize + stop) ↔
      Refused cte maxContextSize bufferOffset batchSize (names.drop batchSize) stop := by
  constructor
  · intro h start hstart hat
    rw [List.drop_drop]
    exact h _ (Nat.add_le_add_left hstart _) (hat.imp (congrArg _) Nat.dvd_add_self_left.mpr)
  · intro h start hstart hat
    obtain ⟨later, rfl⟩ := Nat.exists_eq_add_of_le (Nat.le_of_add_right_le hstart)
    rw [← List.drop_drop]
    exact h later (Nat.le_of_add_le_add_left hstart)
      (hat.imp Nat.add_left_cancel Nat.dvd_add_self_left.mp)

/-- The first batch that does not fit as a whole. -/
theorem refused_first (hstop : stop < (names.take batchSize).length) :
    Refused cte maxContextSize bufferOffset batchSize names stop ↔
      Blocked cte maxContextSize bufferOffset ((names.take batchSize).drop stop) ∧
        ∀ k, Blocked cte maxContextSize bufferOffset ((names.drop batchSize).drop (k * batchSize)) := by
  have hlt : stop < batchSize := Nat.lt_of_lt_of_le hstop (List.length_take_le _ _)
  have hdrop : names.drop stop = (names.take batchSize).drop stop ++ names.drop batchSize := by
    rw [← List.drop_append_of_le_length (Nat.le_of_lt hstop), List.take_append_drop]
  have hlater : ∀ k, (names.drop batchSize).drop (k * batchSize) = names.drop ((k + 1) * batchSize) := by
    intro k
    rw [List.drop_drop, Nat.succ_mul, Nat.add_comm]
  constructor
  · intro h
    have hfirst := h stop (Nat.le_refl _) (.inl rfl)
    rw [hdrop] at hfirst
    refine ⟨hfirst.of_append, fun k => ?_⟩
    rw [hlater]
    refine h _ ?_ (.inr (Nat.dvd_mul_left _ _))
    rw [Nat.succ_mul]
    omega
  · rintro ⟨hfirst, hbatches⟩ start hstart hat
    have hnow : Blocked cte maxContextSize bufferOffset (names.drop stop) := by
      rw [hdrop, blocked_append]
      · exact hfirst
      · simpa only [Nat.zero_mul, List.drop_zero] using hbatches 0
    obtain rfl | ⟨k, rfl⟩ := hat
    · exact hnow
    · cases k with
      | zero =>
        obtain rfl : stop = 0 := Nat.le_zero.mp hstart
        exact hnow
      | succ k =>
        rw [Nat.mul_comm, ← hlater]
        exact hbatches k

/-- **What a run packs**: the blobs up to the first that does not fit, and behind them what later
batches find. -/
theorem packed_eq (cte : CteClient) (fuel : Nat) (bufferOffset : UInt64) (hfuel : names.length ≤ fuel * batchSize)
    (hstart : bufferOffset.toNat ≤ maxContextSize.toNat) :
    let fit := fitting cte maxContextSize bufferOffset.toNat names
    ∃ extra, packed cte maxContextSize batchSize fuel bufferOffset names = cte.blobs fit ++ extra ∧
      (extra = [] ↔ Refused cte maxContextSize (offsetAfter bufferOffset (cte.blobs fit)) batchSize
        names fit.length) := by
  induction fuel generalizing bufferOffset names with
  | zero =>
    rw [Nat.zero_mul, Nat.le_zero, List.length_eq_zero_iff] at hfuel
    subst hfuel
    exact ⟨[], rfl, iff_of_true rfl (refused_of_length_le (Nat.le_refl _))⟩
  | succ fuel ih =>
    rw [Nat.succ_mul] at hfuel
    have hrest : (names.drop batchSize).length ≤ fuel * batchSize := by
      rw [List.length_drop]
      omega
    have hsplit := List.take_append_drop batchSize names
    obtain ⟨extra, hchosen, hiff⟩ := chosen_eq cte bufferOffset (names.take batchSize) hstart
    have hsizes := sizes_fitting_le cte (names.take batchSize) hstart
    have hfront := fitting_append_drop cte maxContextSize bufferOffset.toNat (names.take batchSize)
    rw [packed]
    by_cases hall : fitting cte maxContextSize bufferOffset.toNat (names.take batchSize) =
        names.take batchSize
    · rw [hall] at hchosen hiff hsizes
      obtain rfl : extra = [] := by
        rw [hiff, List.drop_length]
        exact blocked_nil _
      rw [List.append_nil] at hchosen
      have hoffset := toNat_offsetAfter (Nat.lt_of_le_of_lt hsizes maxContextSize.toNat_lt)
      obtain ⟨extra, hlater, hiff'⟩ := ih (offsetAfter bufferOffset (cte.blobs (names.take batchSize)))
        hrest (by rw [hoffset]; exact hsizes)
      rw [hoffset] at hlater hiff'
      have hfit : fitting cte maxContextSize bufferOffset.toNat names =
          names.take batchSize ++ fitting cte maxContextSize
            (bufferOffset.toNat + sizes (cte.blobs (names.take batchSize))) (names.drop batchSize) := by
        rw [← fitting_append_of_all hall, hsplit]
      rw [hchosen, hlater, hfit]
      dsimp only
      rw [blobs_append]
      refine ⟨extra, (List.append_assoc _ _ _).symm, hiff'.trans ?_⟩
      rw [offsetAfter, offsetAfter, offsetAfter, List.foldl_append, List.length_append]
      by_cases hshort : names.length < batchSize
      · have hnone : names.drop batchSize = [] := List.drop_of_length_le (Nat.le_of_lt hshort)
        rw [List.take_of_length_le (Nat.le_of_lt hshort), hnone]
        exact iff_of_true (refused_of_length_le (Nat.zero_le _))
          (refused_of_length_le (Nat.le_add_right _ _))
      · have hlength : (names.take batchSize).length = batchSize := by
          rw [List.length_take]
          omega
        rw [hlength]
        exact refused_drop.symm
    · have hstop : (fitting cte maxContextSize bufferOffset.toNat (names.take batchSize)).length <
          (names.take batchSize).length := by
        by_contra hge
        rw [List.drop_of_length_le (Nat.le_of_not_lt hge), List.append_nil] at hfront
        exact hall hfront
      have hfit : fitting cte maxContextSize bufferOffset.toNat names =
          fitting cte maxContextSize bufferOffset.toNat (names.take batchSize) := by
        rw [← fitting_append_of_not hstop, hsplit]
      rw [hfit]
      dsimp only
      rw [refused_first hstop, ← hiff, hchosen, List.append_assoc]
      refine ⟨_, rfl, ?_⟩
      rw [List.append_eq_nil_iff]
      refine and_congr_right fun hextra => ?_
      rw [hextra, List.append_nil]
      exact packed_eq_nil_iff hrest

/-! ### The context -/

/-- What `ContextRetrieve` is for: the blobs up to the first that no longer fits, without those
whose read fails. -/
def context (cte : CteClient) (maxContextSize : UInt64) (names : List (Bytes × Bytes)) : Bytes :=
  contribution (cte.blobs (fitting cte maxContextSize 0 names))

/-- The call ends and returns this. -/
def Returns (cte : CteClient) (tagNames blobNames : List Bytes) (maxContextSize : UInt64)
    (allocated : Option { buffer : Bytes // buffer.length = maxContextSize.toNat })
    (batchSize : UInt32) (results : List Bytes) : Prop :=
  ∃ fuel, contextRetrieve cte tagNames blobNames maxContextSize allocated batchSize fuel =
    some (.returned results)

/-- What a batch size must be like for some names. -/
structure Sound (cte : CteClient) (maxContextSize : UInt64) (names : List (Bytes × Bytes))
    (batchSize : UInt32) : Prop where
  batch : batchSize ≠ 0
  reads : ∀ blob ∈ cte.blobs (fitting cte maxContextSize 0 names), blob.reply.returnCode = 0
  refused : Refused cte maxContextSize
    (offsetAfter 0 (cte.blobs (fitting cte maxContextSize 0 names))) batchSize.toNat names
    (fitting cte maxContextSize 0 names).length

/-- A context of no names, a context without a buffer, or the loop. -/
def Fulfils (cte : CteClient) (maxContextSize : UInt64) (names : List (Bytes × Bytes))
    (allocated : Option { buffer : Bytes // buffer.length = maxContextSize.toNat })
    (batchSize : UInt32) : Prop :=
  names = [] ∨
    match allocated with
    | none => context cte maxContextSize names = []
    | some _ => Sound cte maxContextSize names batchSize

theorem length_contribution_le (blobs : List Blob) : (contribution blobs).length ≤ sizes blobs := by
  induction blobs with
  | nil => exact Nat.le_refl 0
  | cons blob blobs ih =>
    have hsizes : sizes (blob :: blobs) = blob.size.toNat + sizes blobs := rfl
    have hcons : contribution (blob :: blobs) =
      (if blob.reply.returnCode = 0 then blob.reply.data else []) ++ contribution blobs := rfl
    have hlength := blob.reply.length
    rw [hsizes, hcons, List.length_append]
    split
    · omega
    · rw [List.length_nil]
      omega

/-- Reads without a failure contribute what they leave, and no others do. -/
theorem contribution_eq_iff {extra : List Blob}
    (hpos : ∀ blob ∈ blobs ++ extra, 0 < blob.size.toNat) :
    contents (blobs ++ extra) = contribution blobs ↔
      extra = [] ∧ ∀ blob ∈ blobs, blob.reply.returnCode = 0 := by
  induction blobs with
  | nil =>
    refine ⟨fun h => ⟨?_, fun _ hblob => absurd hblob List.not_mem_nil⟩, fun h => by rw [h.1]; rfl⟩
    cases extra with
    | nil => rfl
    | cons blob extra =>
      have hlength := congrArg List.length h
      have hblob := hpos blob List.mem_cons_self
      rw [length_contents, List.nil_append, sizes, List.map_cons, List.sum_cons] at hlength
      have hnone : (contribution []).length = 0 := rfl
      omega
  | cons blob blobs ih =>
    have hblob := hpos blob List.mem_cons_self
    have hrest := ih fun blob' hblob' => hpos blob' (List.mem_cons_of_mem _ hblob')
    have hcontents : contents (blob :: blobs ++ extra) = blob.reply.data ++ contents (blobs ++ extra) :=
      rfl
    have hcons : contribution (blob :: blobs) =
      (if blob.reply.returnCode = 0 then blob.reply.data else []) ++ contribution blobs := rfl
    rw [hcontents, hcons, List.forall_mem_cons]
    by_cases hok : blob.reply.returnCode = 0
    · rw [if_pos hok, List.append_cancel_left_eq, hrest]
      exact ⟨fun h => ⟨h.1, hok, h.2⟩, fun h => ⟨h.1, h.2.2⟩⟩
    · rw [if_neg hok, List.nil_append]
      refine iff_of_false (fun h => ?_) fun h => hok h.2.1
      have hlength := congrArg List.length h
      have hle := length_contribution_le blobs
      rw [List.length_append, blob.reply.length, length_contents, sizes_append] at hlength
      omega

/-- A call returns its context exactly if the batch size is sound. -/
theorem returns_context_iff {tagNames blobNames : List Bytes}
    (allocated : Option { buffer : Bytes // buffer.length = maxContextSize.toNat })
    (batchSize : UInt32) :
    Returns cte tagNames blobNames maxContextSize allocated batchSize
        (pack (context cte maxContextSize (tagNames.zip blobNames))) ↔
      Fulfils cte maxContextSize (tagNames.zip blobNames) allocated batchSize := by
  generalize hnames : tagNames.zip blobNames = names
  unfold Returns contextRetrieve Fulfils
  simp only [hnames]
  by_cases hempty : names = []
  · subst hempty
    exact iff_of_true ⟨0, rfl⟩ (.inl rfl)
  rw [or_iff_right hempty]
  cases allocated with
  | none =>
    have hpack : pack [] = [] := rfl
    simp only [if_neg hempty, exists_const, Option.some.injEq, Retrieval.returned.injEq]
    rw [← hpack, pack_inj]
    exact eq_comm
  | some buffer =>
    simp only [if_neg hempty]
    by_cases hzero : batchSize = 0
    · subst hzero
      refine iff_of_false ?_ fun hsound => hsound.batch rfl
      rintro ⟨fuel, hreturn⟩
      rw [batches_zero (List.length_pos_iff.mpr hempty)] at hreturn
      cases hreturn
    have hbatch : 0 < batchSize.toNat := by
      refine Nat.pos_of_ne_zero fun h => hzero (UInt32.toNat_inj.mp ?_)
      rw [h]
      rfl
    have hfuel : names.length ≤ names.length * batchSize.toNat := Nat.le_mul_of_pos_right _ hbatch
    have hlength : buffer.1.length < 2 ^ 64 := by
      rw [buffer.2]
      exact maxContextSize.toNat_lt
    have hrun : batches cte maxContextSize names batchSize (names.length + 1) 0 buffer.1 0 = _ :=
      batches_eq cte maxContextSize hbatch names.length (by rw [Nat.zero_add]; exact hfuel)
        (Nat.zero_le buffer.1.length) hlength
    rw [List.drop_zero, buffer.2] at hrun
    have hends : ∀ r, (∃ fuel, batches cte maxContextSize names batchSize fuel 0 buffer.1 0 = some r) ↔
        batches cte maxContextSize names batchSize (names.length + 1) 0 buffer.1 0 = some r := by
      intro r
      refine ⟨fun hreturn => ?_, fun h => ⟨_, h⟩⟩
      obtain ⟨fuel, h⟩ := hreturn
      have hlong := batches_mono (names.length + 1) h
      rw [Nat.add_comm, batches_mono fuel hrun] at hlong
      rw [hrun, hlong]
    obtain ⟨extra, hpacked, hiff⟩ := packed_eq cte names.length 0 hfuel
      (Nat.zero_le maxContextSize.toNat)
    have hzero : (0 : UInt64).toNat = 0 := rfl
    rw [hzero] at hpacked hiff
    have hpos : ∀ blob ∈ cte.blobs (fitting cte maxContextSize 0 names) ++ extra,
        0 < blob.size.toNat := by
      rw [← hpacked]
      exact fun _ hblob => packed_pos hblob
    rw [hends, hrun, hpacked, Option.some.injEq, hzero, Nat.zero_add, List.take_zero, List.nil_append]
    have hfits := sizes_fitting_le cte names (Nat.zero_le maxContextSize.toNat)
    rw [Nat.zero_add] at hfits
    have hsound : Sound cte maxContextSize names batchSize ↔
        extra = [] ∧ ∀ blob ∈ cte.blobs (fitting cte maxContextSize 0 names),
          blob.reply.returnCode = 0 :=
      ⟨fun h => ⟨hiff.mpr h.refused, h.reads⟩, fun h => ⟨by assumption, h.2, hiff.mp h.1⟩⟩
    rw [hsound]
    by_cases hroom : sizes (cte.blobs (fitting cte maxContextSize 0 names) ++ extra) ≤
        maxContextSize.toNat
    · rw [if_pos hroom, Retrieval.returned.injEq, pack_inj]
      exact contribution_eq_iff hpos
    · rw [if_neg hroom]
      refine iff_of_false (fun h => by cases h) fun h => ?_
      rw [h.1, List.append_nil] at hroom
      exact hroom hfits

/-- **Two batch sizes give the same context, and the one it is for, exactly if both are sound**:
not 0, no blob up to the first that no longer fits fails to be read, and every batch behind that
blob starts with one that does not fit either. -/
theorem retrieve_independent_iff (cte : CteClient) (tagNames blobNames : List Bytes)
    (maxContextSize : UInt64)
    (allocated : Option { buffer : Bytes // buffer.length = maxContextSize.toNat })
    (batchSize batchSize' : UInt32) :
    (Returns cte tagNames blobNames maxContextSize allocated batchSize
          (pack (context cte maxContextSize (tagNames.zip blobNames))) ∧
        Returns cte tagNames blobNames maxContextSize allocated batchSize'
          (pack (context cte maxContextSize (tagNames.zip blobNames)))) ↔
      Fulfils cte maxContextSize (tagNames.zip blobNames) allocated batchSize ∧
        Fulfils cte maxContextSize (tagNames.zip blobNames) allocated batchSize' :=
  and_congr (returns_context_iff allocated batchSize) (returns_context_iff allocated batchSize')

/-- Every blob is as long as its name and can be read. -/
def namesakes : CteClient where
  getOrCreateTag _ := ⟨1, 0⟩
  getBlobSize _ blobName := UInt64.ofNat blobName.length
  getBlob _ _ size := ⟨0, List.replicate size.toNat 7, List.length_replicate⟩

/-- With room for three bytes, a blob of three bytes behind one of two ends its batch, and a blob
of one byte is packed if it is in another. -/
theorem batch_decides : ¬ ∀ (cte : CteClient) (tagNames blobNames : List Bytes) (maxContextSize : UInt64)
    (buffer : { buffer : Bytes // buffer.length = maxContextSize.toNat }) (batchSize batchSize' : UInt32),
    Returns cte tagNames blobNames maxContextSize (some buffer) batchSize
        (pack (context cte maxContextSize (tagNames.zip blobNames))) ∧
      Returns cte tagNames blobNames maxContextSize (some buffer) batchSize'
        (pack (context cte maxContextSize (tagNames.zip blobNames))) := by
  intro hclaim
  have hone := (hclaim namesakes [[1], [1], [1]] [[1, 1], [2, 2, 2], [3]] 3 ⟨[0, 0, 0], rfl⟩ 1 3).1
  obtain hempty | hsound := (returns_context_iff _ _).mp hone
  · cases hempty
  have hlast := hsound.refused 2 (by decide) (.inr (by decide)) ⟨1, 0, [7], rfl⟩
  exact absurd (hlast rfl) (by decide)

end ContextInterface

end IowarpCore
