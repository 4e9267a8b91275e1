/-
The round trip through a buffer.

What a load makes of an object is a function of what the object was and what was written
(`merge`), whatever the bytes: `loads_save` says so for every type, by induction on it, and
says that exactly the bytes written are consumed.  A load into a fresh object gives what was
written (`merge_default`), so elements of a list and values of a map are right.  But a list is
appended to and a map is assigned into, so what these had before stays.
-/
import IowarpCore.Serialization.LocalSerialize

namespace IowarpCore
namespace Serialization

/-! ### Reading what lies ahead -/

namespace LocalDeserialize

variable {ar : LocalDeserialize} {as bs : Bytes}

def skip (ar : LocalDeserialize) (n : Nat) : LocalDeserialize :=
  { ar with curOff := ar.curOff + n }

/-- The next bytes of the data. -/
def Ahead (ar : LocalDeserialize) (bs : Bytes) : Prop :=
  ∃ front tail, ar.data = front ++ (bs ++ tail) ∧ ar.curOff = front.length

theorem skip_skip (ar : LocalDeserialize) (m n : Nat) : (ar.skip m).skip n = ar.skip (m + n) := by
  simp only [skip, Nat.add_assoc]

theorem Ahead.left (h : ar.Ahead (as ++ bs)) : ar.Ahead as := by
  obtain ⟨front, tail, hdata, hoff⟩ := h
  exact ⟨front, bs ++ tail, by rw [hdata, List.append_assoc], hoff⟩

theorem Ahead.right (h : ar.Ahead (as ++ bs)) : (ar.skip as.length).Ahead bs := by
  obtain ⟨front, tail, hdata, hoff⟩ := h
  refine ⟨front ++ as, tail, ?_, ?_⟩
  · show ar.data = _
    rw [hdata, List.append_assoc, List.append_assoc]
  · show ar.curOff + as.length = _
    rw [hoff, List.length_append]

theorem readBinary_ahead (h : ar.Ahead bs) : ar.readBinary bs.length = (some bs, ar.skip bs.length) := by
  obtain ⟨front, tail, hdata, hoff⟩ := h
  unfold readBinary
  rw [if_neg (by rw [hdata, hoff]; simp), hdata, hoff, List.drop_left, List.take_left, skip, hdata,
    hoff]

end LocalDeserialize

open LocalDeserialize

/-- Where the bytes lie ahead, the load makes `new` of `old` and consumes them. -/
def Loads {α : Type} (load : Load α) (old : α) (bs : Bytes) (new : α) : Prop :=
  ∀ ar : LocalDeserialize, ar.Ahead bs → load old ar = (new, ar.skip bs.length)

/-! ### Arithmetic types and strings -/

variable {n : Nat} {t : Ty}

theorem loads_scalar (old v : Image n) : Loads (loadScalar n) old v.1 v := by
  intro ar har
  have hread := readBinary_ahead har
  rw [v.2] at hread
  unfold loadScalar
  rw [hread]
  dsimp only
  rw [dif_pos v.2, v.2]

theorem loadSize_ahead {ar : LocalDeserialize} (hn : n < 2 ^ 64) (har : ar.Ahead (saveSize n)) :
    loadSize ar = (n, ar.skip (saveSize n).length) := by
  have hread := readBinary_ahead har
  rw [saveSize, leBytes_length] at hread
  unfold loadSize
  rw [hread]
  dsimp only
  rw [leNat_leBytes_of_lt (Nat.lt_of_lt_of_eq hn (by norm_num)), saveSize, leBytes_length]

theorem length_resize {α : Type} (d : α) (size : Nat) (obj : List α) :
    (resize d size obj).length = size := by
  rw [resize, List.length_append, List.length_take, List.length_replicate]
  omega

theorem loads_string {text : Bytes} (htext : text.length < 2 ^ 64) (old : Bytes) :
    Loads loadString old (saveString text) text := by
  intro ar har
  unfold loadString
  rw [loadSize_ahead htext har.left]
  dsimp only
  rw [length_resize, readBinary_ahead har.right, skip_skip, saveString, List.length_append]

theorem Key.loads {k : Key} {v : k.Val} (h : k.Fits v) (old : k.Val) :
    Loads k.load old (k.save v) v := by
  cases k with
  | scalar s => exact loads_scalar old v
  | string => exact loads_string h old

/-! ### The loops -/

section

variable {α : Type} {ld : Load α} {sv : α → Bytes}

/-- The elements of a vector: those that were there are loaded into, and the others into new ones. -/
def mergeElems (merge : α → α → α) (d : α) : List α → List α → List α
  | _, [] => []
  | [], x :: v => merge d x :: mergeElems merge d [] v
  | obj :: objs, x :: v => merge obj x :: mergeElems merge d objs v

theorem loads_elems {merge : α → α → α} {v : List α}
    (h : ∀ x ∈ v, ∀ old, Loads ld old (sv x) (merge old x)) (d : α) (objs : List α) :
    Loads (loadElems ld) (resize d v.length objs) (v.flatMap sv) (mergeElems merge d objs v) := by
  induction v generalizing objs with
  | nil =>
    intro ar har
    rw [List.length_nil, resize, List.take_zero, Nat.zero_sub, List.replicate_zero]
    cases objs with
    | nil => rfl
    | cons obj objs => rfl
  | cons x v ih =>
    have hrest := ih fun y hy => h y (List.mem_cons_of_mem _ hy)
    intro ar har
    rw [List.flatMap_cons] at har
    cases objs with
    | nil =>
      have hresize : resize d (x :: v).length [] = d :: resize d v.length [] := by
        simp [resize, List.replicate_succ]
      rw [hresize, loadElems, h x List.mem_cons_self d ar har.left]
      dsimp only
      rw [hrest [] _ har.right, skip_skip, List.flatMap_cons, List.length_append]
      rfl
    | cons obj objs =>
      have hresize : resize d (x :: v).length (obj :: objs) = obj :: resize d v.length objs := by
        simp [resize]
      rw [hresize, loadElems, h x List.mem_cons_self obj ar har.left]
      dsimp only
      rw [hrest objs _ har.right, skip_skip, List.flatMap_cons, List.length_append]
      rfl

theorem loads_list {d : α} {v : List α} (h : ∀ x ∈ v, Loads ld d (sv x) x) (obj : List α) :
    Loads (loadList ld d v.length) obj (v.flatMap sv) (obj ++ v) := by
  induction v generalizing obj with
  | nil =>
    intro ar har
    rw [List.append_nil]
    rfl
  | cons x v ih =>
    have hrest := ih fun y hy => h y (List.mem_cons_of_mem _ hy)
    intro ar har
    rw [List.flatMap_cons] at har
    rw [List.length_cons, loadList, h x List.mem_cons_self ar har.left]
    dsimp only
    rw [hrest (obj ++ [x]) _ har.right, skip_skip, List.flatMap_cons, List.length_append,
      List.append_assoc]
    rfl

theorem loads_map {κ : Type} {E : KeyEq κ} {ldk : Load κ} {svk : κ → Bytes} {dk : κ} {d : α}
    {v : List (κ × α)} (h : ∀ e ∈ v, Loads ldk dk (svk e.1) e.1 ∧ Loads ld d (sv e.2) e.2)
    (obj : List (κ × α)) :
    Loads (loadMap E ldk dk ld d v.length) obj (v.flatMap fun e => svk e.1 ++ sv e.2)
      (E.assignAll obj v) := by
  induction v generalizing obj with
  | nil =>
    intro ar har
    rfl
  | cons e v ih =>
    have hrest := ih fun y hy => h y (List.mem_cons_of_mem _ hy)
    obtain ⟨hkey, hval⟩ := h e List.mem_cons_self
    intro ar har
    rw [List.flatMap_cons] at har
    rw [List.length_cons, loadMap, hkey ar har.left.left]
    dsimp only
    rw [hval _ har.left.right]
    dsimp only
    have hnext := har.right
    rw [List.length_append, ← skip_skip] at hnext
    rw [hrest _ _ hnext, skip_skip, skip_skip, List.flatMap_cons, List.length_append,
      List.length_append, Nat.add_assoc]
    rfl

end

/-! ### Vectors of an arithmetic type -/

/-- The image of the elements is what they are saved as one by one. -/
theorem arrayImage_eq {image : List (Val t) → Bytes} (h : arrayImage t = some image)
    (v : List (Val t)) : image v = v.flatMap (save t) := by
  cases t with
  | scalar s =>
    rw [arrayImage] at h
    by_cases harith : s.arithmetic = true
    · rw [if_pos harith] at h
      obtain rfl := Option.some.inj h
      rw [List.flatMap_def]
      rfl
    · rw [if_neg harith] at h
      cases h
  | string => cases h
  | vec t => cases h
  | list t => cases h
  | map k t => cases h

theorem save_vec (t : Ty) (v : List (Val t)) :
    save (.vec t) v = saveSize v.length ++ v.flatMap (save t) := by
  rw [save]
  cases h : arrayImage t with
  | none => rfl
  | some image => rw [← arrayImage_eq h]

theorem images_flatMap (v : List (Image n)) :
    images n v.length (v.flatMap Subtype.val) = v := by
  induction v with
  | nil => rfl
  | cons x v ih =>
    have htake : (x.1 ++ v.flatMap Subtype.val).take n = x.1 := List.take_left' x.2
    have hdrop : (x.1 ++ v.flatMap Subtype.val).drop n = v.flatMap Subtype.val :=
      List.drop_left' x.2
    rw [List.length_cons, List.flatMap_cons, images, hdrop, ih]
    simp only [htake, x.2, dite_true]

theorem length_flatMap_images (v : List (Image n)) :
    (v.flatMap Subtype.val).length = v.length * n := by
  induction v with
  | nil => rw [List.length_nil, Nat.zero_mul]; rfl
  | cons x v ih =>
    rw [List.flatMap_cons, List.length_append, ih, x.2, List.length_cons, Nat.succ_mul, Nat.add_comm]

/-- The fast path reads the elements that were written. -/
theorem loads_array {ld : Load (List (Val t))} (h : loadArray t = some ld) {v obj : List (Val t)}
    (hlength : obj.length = v.length) : Loads ld obj (v.flatMap (save t)) v := by
  cases t with
  | scalar s =>
    rw [loadArray] at h
    by_cases harith : s.arithmetic = true
    · rw [if_pos harith] at h
      obtain rfl := Option.some.inj h
      intro ar har
      have hread := readBinary_ahead har
      have hflat : v.flatMap (save (.scalar s)) = v.flatMap Subtype.val := rfl
      rw [hflat] at hread ⊢
      rw [length_flatMap_images, ← hlength] at hread
      dsimp only
      rw [hread]
      dsimp only
      rw [hlength, images_flatMap, length_flatMap_images]
    · rw [if_neg harith] at h
      cases h
  | string => cases h
  | vec t => cases h
  | list t => cases h
  | map k t => cases h

/-! ### Every type -/

/-- What a load makes of an object, by what was written. -/
def merge : (t : Ty) → Val t → Val t → Val t
  | .scalar _, _, v => v
  | .string, _, v => v
  | .vec t, old, v => mergeElems (merge t) (default t) old v
  | .list _, old, v => old ++ v
  | .map k _, old, v => k.eq.assignAll old v

theorem mergeElems_nil {α : Type} {merge : α → α → α} {d : α} {v : List α}
    (h : ∀ x ∈ v, merge d x = x) : mergeElems merge d [] v = v := by
  induction v with
  | nil => rfl
  | cons x v ih =>
    rw [mergeElems, h x List.mem_cons_self, ih fun y hy => h y (List.mem_cons_of_mem _ hy)]

/-- **A load into a fresh object gives what was written.** -/
theorem merge_default {v : Val t} (h : Fits t v) : merge t (default t) v = v := by
  induction t with
  | scalar s => rfl
  | string => rfl
  | vec t ih => exact mergeElems_nil fun x hx => ih (h.2 x hx)
  | list t ih => rfl
  | map k t ih => exact KeyEq.assignAll_of_distinct h.2.1

theorem mergeElems_scalar {s : Scalar} (d : Val (.scalar s)) (old v : List (Val (.scalar s))) :
    mergeElems (merge (.scalar s)) d old v = v := by
  induction v generalizing old with
  | nil => cases old <;> rfl
  | cons x v ih =>
    cases old with
    | nil => rw [mergeElems, ih, merge]
    | cons obj objs => rw [mergeElems, ih, merge]

theorem mergeElems_array {ld : Load (List (Val t))} (h : loadArray t = some ld)
    (d : Val t) (old v : List (Val t)) : mergeElems (merge t) d old v = v := by
  cases t with
  | scalar s => exact mergeElems_scalar d old v
  | string => cases h
  | vec t => cases h
  | list t => cases h
  | map k t => cases h

/-- **What a load makes of an object does not depend on the bytes, and it consumes exactly what
was written.** -/
theorem loads_save {v : Val t} (h : Fits t v) (old : Val t) :
    Loads (load t) old (save t v) (merge t old v) := by
  induction t with
  | scalar s => exact loads_scalar old v
  | string => exact loads_string h old
  | vec t ih =>
    intro ar har
    rw [save_vec] at har ⊢
    rw [load]
    dsimp only
    rw [loadSize_ahead h.1 har.left]
    dsimp only
    cases harray : loadArray t with
    | some ld =>
      dsimp only
      rw [loads_array harray (length_resize _ _ _) _ har.right, skip_skip, List.length_append,
        merge, mergeElems_array harray]
    | none =>
      dsimp only
      rw [loads_elems (fun x hx old => ih (h.2 x hx) old) (default t) old _ har.right, skip_skip,
        List.length_append, merge]
  | list t ih =>
    intro ar har
    rw [save] at har ⊢
    rw [load]
    dsimp only
    rw [loadSize_ahead h.1 har.left]
    dsimp only
    have hfresh : ∀ x ∈ v, Loads (load t) (default t) (save t x) x := by
      intro x hx
      have hload := ih (h.2 x hx) (default t)
      rwa [merge_default (h.2 x hx)] at hload
    rw [loads_list hfresh old _ har.right, skip_skip, List.length_append, merge]
  | map k t ih =>
    intro ar har
    rw [save] at har ⊢
    rw [load]
    dsimp only
    rw [loadSize_ahead h.1 har.left]
    dsimp only
    have hfresh : ∀ e ∈ v, Loads k.load k.default (k.save e.1) e.1 ∧
        Loads (load t) (default t) (save t e.2) e.2 := by
      intro e he
      obtain ⟨hkey, hval⟩ := h.2.2 e he
      refine ⟨Key.loads hkey k.default, ?_⟩
      have hload := ih hval (default t)
      rwa [merge_default hval] at hload
    rw [loads_map hfresh old _ har.right, skip_skip, List.length_append, merge]

/-! ### What is read back -/

/-- Equal, up to the order in which maps are iterated. -/
def Same : (t : Ty) → Val t → Val t → Prop
  | .scalar _, a, b => a = b
  | .string, a, b => a = b
  | .vec t, a, b => List.Forall₂ (Same t) a b
  | .list t, a, b => List.Forall₂ (Same t) a b
  | .map _ t, a, b =>
    ∃ l, l.Perm b ∧ List.Forall₂ (fun e e' => e.1 = e'.1 ∧ Same t e.2 e'.2) a l

/-- No list of the object has an element, and its maps have no keys but those that are written;
elements of a vector that are loaded into count, and a key has to be equal to itself. -/
def Clean : (t : Ty) → Val t → Val t → Prop
  | .scalar _, _, _ => True
  | .string, _, _ => True
  | .vec t, old, v => ∀ p ∈ old.zip v, Clean t p.1 p.2
  | .list _, old, _ => old = []
  | .map k _, old, v => ∀ o ∈ old, k.eq.eq o.1 o.1 = true ∧ ∃ y ∈ v, y.1 = o.1

theorem forall₂_self {α : Type} {r : α → α → Prop} (h : ∀ x, r x x) (v : List α) :
    List.Forall₂ r v v := by
  induction v with
  | nil => exact List.Forall₂.nil
  | cons x v ih => exact List.Forall₂.cons (h x) ih

theorem exists_mem_of_forall₂ {α : Type} {r : α → α → Prop} {a b : List α} (h : List.Forall₂ r a b)
    {x : α} (hx : x ∈ a) : ∃ y ∈ b, r x y := by
  induction h with
  | nil => exact absurd hx List.not_mem_nil
  | cons hhead htail ih =>
    rcases List.mem_cons.mp hx with rfl | hx
    · exact ⟨_, List.mem_cons_self, hhead⟩
    · obtain ⟨y, hy, hxy⟩ := ih hx
      exact ⟨y, List.mem_cons_of_mem _ hy, hxy⟩

theorem Same.refl (t : Ty) (v : Val t) : Same t v v := by
  induction t with
  | scalar s => rfl
  | string => rfl
  | vec t ih => exact forall₂_self ih v
  | list t ih => exact forall₂_self ih v
  | map k t ih => exact ⟨v, List.Perm.refl _, forall₂_self (fun e => ⟨rfl, ih e.2⟩) v⟩

/-- A vector is read back if each element is that is loaded into an old one. -/
theorem forall₂_mergeElems {α : Type} {mg : α → α → α} {d : α} {r : α → α → Prop}
    {clean : α → α → Prop} (hrefl : ∀ x, r x x) {old v : List α} (hd : ∀ x ∈ v, mg d x = x)
    (h : ∀ o ∈ old, ∀ x ∈ v, (r (mg o x) x ↔ clean o x)) :
    List.Forall₂ r (mergeElems mg d old v) v ↔ ∀ p ∈ old.zip v, clean p.1 p.2 := by
  induction v generalizing old with
  | nil =>
    rw [List.zip_nil_right]
    cases old with
    | nil => exact iff_of_true List.Forall₂.nil (by simp)
    | cons o old => exact iff_of_true List.Forall₂.nil (by simp)
  | cons x v ih =>
    have hd' : ∀ y ∈ v, mg d y = y := fun y hy => hd y (List.mem_cons_of_mem _ hy)
    cases old with
    | nil =>
      rw [List.zip_nil_left, mergeElems_nil hd]
      exact iff_of_true (forall₂_self hrefl _) (by simp)
    | cons o old =>
      have hrest : ∀ o ∈ old, ∀ x ∈ v, (r (mg o x) x ↔ clean o x) := fun o ho x hx =>
        h o (List.mem_cons_of_mem _ ho) x (List.mem_cons_of_mem _ hx)
      rw [mergeElems, List.forall₂_cons, List.zip_cons_cons, List.forall_mem_cons, ih hd' hrest,
        h o List.mem_cons_self x List.mem_cons_self]

theorem same_list_iff (old v : List (Val t)) :
    List.Forall₂ (Same t) (old ++ v) v ↔ old = [] := by
  constructor
  · intro h
    have hlength := h.length_eq
    rw [List.length_append] at hlength
    exact List.eq_nil_of_length_eq_zero (by omega)
  · rintro rfl
    exact forall₂_self (Same.refl t) v

theorem same_map_iff {k : Key} {old v : Val (.map k t)} (hold : k.eq.Distinct old)
    (hv : k.eq.Distinct v) : Same (.map k t) (k.eq.assignAll old v) v ↔ Clean (.map k t) old v := by
  constructor
  · rintro ⟨l, hperm, hsame⟩ o ho
    have hlength : (k.eq.assignAll old v).length = v.length :=
      hsame.length_eq.trans hperm.length_eq
    constructor
    · obtain ⟨y, -, heq⟩ := KeyEq.eq_of_length hv hlength ho
      exact k.eq.trans o.1 y.1 o.1 heq (k.eq.symm o.1 y.1 heq)
    · obtain ⟨x, hx⟩ := KeyEq.key_mem_assignAll (E := k.eq) v ho
      obtain ⟨y, hy, hkey, -⟩ := exists_mem_of_forall₂ hsame hx
      exact ⟨y, hperm.mem_iff.mp hy, hkey.symm⟩
  · intro h
    exact ⟨_, KeyEq.assignAll_perm hold hv h, forall₂_self (fun e => ⟨rfl, Same.refl t e.2⟩) _⟩

/-- An object is read back exactly if the one it is read into is clean. -/
theorem same_merge_iff {old v : Val t} (hold : Fits t old) (hv : Fits t v) :
    Same t (merge t old v) v ↔ Clean t old v := by
  induction t with
  | scalar s => exact iff_of_true rfl trivial
  | string => exact iff_of_true rfl trivial
  | vec t ih =>
    exact forall₂_mergeElems (Same.refl t) (fun x hx => merge_default (hv.2 x hx))
      fun o ho x hx => ih (hold.2 o ho) (hv.2 x hx)
  | list t ih => exact same_list_iff old v
  | map k t ih => exact same_map_iff hold.2.1 hv.2.1

/-! ### Sequences of objects -/

/-- Reading the objects one after the other gives what was written, and comes to the end of the
data. -/
def ReadsBack : List Field → LocalDeserialize → Prop
  | [], ar => ar.curOff = ar.data.length
  | f :: fields, ar =>
    Same f.ty (load f.ty f.target.val ar).1 f.written.val ∧
      ReadsBack fields (load f.ty f.target.val ar).2

theorem serialize_eq (fields : List Field) :
    serialize fields = fields.flatMap fun f => save f.ty f.written.val := by
  have hloop : ∀ (fields : List Field) (data : Bytes),
      fields.foldl (fun data f => data ++ save f.ty f.written.val) data =
        data ++ fields.flatMap fun f => save f.ty f.written.val := by
    intro fields
    induction fields with
    | nil => exact fun data => (List.append_nil data).symm
    | cons f fields ih =>
      intro data
      rw [List.foldl_cons, ih, List.flatMap_cons, List.append_assoc]
  exact hloop fields []

theorem readsBack_iff_of_ahead (fields : List Field) (front : Bytes) {ar : LocalDeserialize}
    (hdata : ar.data = front ++ fields.flatMap fun f => save f.ty f.written.val)
    (hoff : ar.curOff = front.length) :
    ReadsBack fields ar ↔ ∀ f ∈ fields, Clean f.ty f.target.val f.written.val := by
  induction fields generalizing front ar with
  | nil =>
    refine iff_of_true ?_ (by simp)
    rw [List.flatMap_nil, List.append_nil] at hdata
    rw [ReadsBack, hdata, hoff]
  | cons f fields ih =>
    rw [List.flatMap_cons] at hdata
    have hload := loads_save f.written.fits f.target.val ar ⟨front, _, hdata, hoff⟩
    rw [ReadsBack, hload, List.forall_mem_cons, same_merge_iff f.target.fits f.written.fits]
    refine and_congr_right fun _ => ih (front ++ save f.ty f.written.val) ?_ ?_
    · rw [List.append_assoc]
      exact hdata
    · show ar.curOff + _ = _
      rw [hoff, List.length_append]

/-- **A sequence of objects is read back exactly, to the last byte, if and only if each is read
into an object that is clean for it.** -/
theorem reads_back_iff (fields : List Field) :
    ReadsBack fields ⟨serialize fields, 0⟩ ↔
      ∀ f ∈ fields, Clean f.ty f.target.val f.written.val :=
  readsBack_iff_of_ahead fields [] (serialize_eq fields) rfl

/-- A list with one byte, read into a list that has one. -/
def loadedTwice : Field where
  ty := .list (.scalar (.int 1))
  written := ⟨[⟨[7], rfl⟩], by decide, fun _ _ => trivial⟩
  target := ⟨[⟨[7], rfl⟩], by decide, fun _ _ => trivial⟩

/-- A list that is loaded a second time has every element twice. -/
theorem list_loaded_twice :
    ¬ReadsBack [loadedTwice] ⟨serialize [loadedTwice], 0⟩ := by
  rintro ⟨hsame, -⟩
  exact absurd hsame.length_eq (by decide)

end Serialization
end IowarpCore
