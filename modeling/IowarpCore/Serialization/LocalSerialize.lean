/-
Serialization into a buffer of the process.

Follows `LocalSerialize` and `LocalDeserialize` of `local_serialize.h`, and `save_string` to
`load_map` of `serialize_common.h`.  What the compiler picks by the type is here a recursion on
a description of the type (`Ty`): arithmetic types, enumerations, strings, vectors, lists and
unordered maps, in any nesting.  The keys of an `std::unordered_map` with the standard hash are
arithmetic, enumerations or strings.

A value of an arithmetic type is its image in memory.  A map is the list of its entries in the
order in which it is iterated.  Behind the end of the data a read leaves the object as it is; for
an enumeration the value is then indeterminate in the source.
-/
import IowarpCore.Lib.Bytes
import IowarpCore.Lib.Ieee
import IowarpCore.Lib.Entries

namespace IowarpCore
namespace Serialization

/-! ### Types and values -/

/-- The image of an object of `n` bytes. -/
abbrev Image (n : Nat) := { bs : Bytes // bs.length = n }

/-- An arithmetic type or an enumeration: its size and its `==`. -/
structure Scalar where
  size : Nat
  arithmetic : Bool
  eq : KeyEq (Image size)

namespace Scalar

/-- An integer type: equal numbers have equal images. -/
def int (size : Nat) : Scalar := ⟨size, true, KeyEq.ofDecidableEq⟩

def enum (size : Nat) : Scalar := ⟨size, false, KeyEq.ofDecidableEq⟩

/-- A binary floating point type.  A NaN is not equal to itself, and the zeros are equal. -/
def float (F : FloatFormat) (size : Nat) : Scalar where
  size := size
  arithmetic := true
  eq :=
    { eq := fun a b =>
        !F.isNaN (leNat a.1) && !F.isNaN (leNat b.1) &&
          decide (F.scaled (leNat a.1) = F.scaled (leNat b.1))
      symm := by
        intro a b h
        simp only [Bool.and_eq_true, decide_eq_true_eq] at h ⊢
        exact ⟨⟨h.1.2, h.1.1⟩, h.2.symm⟩
      trans := by
        intro a b c hab hbc
        simp only [Bool.and_eq_true, decide_eq_true_eq] at hab hbc ⊢
        exact ⟨⟨hab.1.1, hbc.1.2⟩, hab.2.trans hbc.2⟩ }

end Scalar

/-- A key type of an unordered map. -/
inductive Key where
  | scalar (s : Scalar)
  | string

inductive Ty where
  | scalar (s : Scalar)
  | string
  | vec (t : Ty)
  | list (t : Ty)
  | map (k : Key) (t : Ty)

/-- The objects of a key type. -/
abbrev Key.Val : Key → Type
  | .scalar s => Image s.size
  | .string => Bytes

def Key.eq : (k : Key) → KeyEq k.Val
  | .scalar s => s.eq
  | .string => KeyEq.ofDecidableEq

/-- The objects of a type. -/
abbrev Val : Ty → Type
  | .scalar s => Image s.size
  | .string => Bytes
  | .vec t => List (Val t)
  | .list t => List (Val t)
  | .map k t => List (k.Val × Val t)

/-- `T{}`, and what `resize` adds. -/
def default : (t : Ty) → Val t
  | .scalar s => ⟨List.replicate s.size 0, List.length_replicate⟩
  | .string => []
  | .vec _ => []
  | .list _ => []
  | .map _ _ => []

def Key.default : (k : Key) → k.Val
  | .scalar s => ⟨List.replicate s.size 0, List.length_replicate⟩
  | .string => []

/-! ### Saving -/

/-- `ar << size`, for a `size_t`. -/
def saveSize (n : Nat) : Bytes := leBytes 8 n

/-- `save_string`. -/
def saveString (text : Bytes) : Bytes :=
  saveSize text.length ++ text

def Key.save : (k : Key) → k.Val → Bytes
  | .scalar _, v => v.1
  | .string, text => saveString text

/-- The elements of a vector of an arithmetic type, as they are in memory. -/
def arrayImage : (t : Ty) → Option (List (Val t) → Bytes)
  | .scalar s => if s.arithmetic then some fun v => (v.map Subtype.val).flatten else none
  | _ => none

/-- `LocalSerialize::base`, with `save_vec`, `save_list` and `save_map`. -/
def save : (t : Ty) → Val t → Bytes
  | .scalar _, v => v.1
  | .string, text => saveString text
  | .vec t, v =>
    saveSize v.length ++
      match arrayImage t with
      | some image => image v
      | none => v.flatMap (save t)
  | .list t, v => saveSize v.length ++ v.flatMap (save t)
  | .map k t, v => saveSize v.length ++ v.flatMap fun e => k.save e.1 ++ save t e.2

/-! ### Loading -/

/-- `LocalDeserialize`. -/
structure LocalDeserialize where
  data : Bytes
  curOff : Nat

/-- A load: the object is changed in place. -/
abbrev Load (α : Type) := α → LocalDeserialize → α × LocalDeserialize

namespace LocalDeserialize

/-- `read_binary`: the bytes that are copied, if there are as many. -/
def readBinary (ar : LocalDeserialize) (size : Nat) : Option Bytes × LocalDeserialize :=
  if ar.curOff + size > ar.data.length then (none, ar)
  else (some ((ar.data.drop ar.curOff).take size), { ar with curOff := ar.curOff + size })

end LocalDeserialize

def loadScalar (n : Nat) : Load (Image n) := fun obj ar =>
  match ar.readBinary n with
  | (some bs, ar) => (if h : bs.length = n then ⟨bs, h⟩ else obj, ar)
  | (none, ar) => (obj, ar)

/-- `size_t size = 0; ar >> size`. -/
def loadSize (ar : LocalDeserialize) : Nat × LocalDeserialize :=
  match ar.readBinary 8 with
  | (some bs, ar) => (leNat bs, ar)
  | (none, ar) => (0, ar)

/-- `resize`, with `d` for a new element. -/
def resize {α : Type} (d : α) (size : Nat) (obj : List α) : List α :=
  obj.take size ++ List.replicate (size - obj.length) d

/-- `load_string`. -/
def loadString : Load Bytes := fun text ar =>
  let (size, ar) := loadSize ar
  let text := resize 0 size text
  match ar.readBinary text.length with
  | (some bs, ar) => (bs, ar)
  | (none, ar) => (text, ar)

def Key.load : (k : Key) → Load k.Val
  | .scalar s => loadScalar s.size
  | .string => loadString

/-- The loop of `load_vec` over the elements. -/
def loadElems {α : Type} (load : Load α) : Load (List α)
  | [], ar => ([], ar)
  | obj :: objs, ar =>
    let (obj, ar) := load obj ar
    let (objs, ar) := loadElems load objs ar
    (obj :: objs, ar)

/-- The images that lie one behind the other. -/
def images (n : Nat) : Nat → Bytes → List (Image n)
  | 0, _ => []
  | count + 1, bs =>
    (if h : (bs.take n).length = n then ⟨bs.take n, h⟩
      else ⟨List.replicate n 0, List.length_replicate⟩) :: images n count (bs.drop n)

/-- `read_binary` of the elements of a vector of an arithmetic type. -/
def loadArray : (t : Ty) → Option (Load (List (Val t)))
  | .scalar s =>
    if s.arithmetic then
      some fun obj ar =>
        match ar.readBinary (obj.length * s.size) with
        | (some bs, ar) => (images s.size obj.length bs, ar)
        | (none, ar) => (obj, ar)
    else none
  | _ => none

/-- The loop of `load_list`: an element is added, and loaded. -/
def loadList {α : Type} (load : Load α) (d : α) : Nat → Load (List α)
  | 0, obj, ar => (obj, ar)
  | n + 1, obj, ar =>
    let (last, ar) := load d ar
    loadList load d n (obj ++ [last]) ar

/-- The loop of `load_map`: a key and a value are loaded, and assigned. -/
def loadMap {κ α : Type} (E : KeyEq κ) (loadKey : Load κ) (dk : κ) (load : Load α) (d : α) :
    Nat → Load (List (κ × α))
  | 0, obj, ar => (obj, ar)
  | n + 1, obj, ar =>
    let (key, ar) := loadKey dk ar
    let (val, ar) := load d ar
    loadMap E loadKey dk load d n (E.assign key val obj) ar

/-- `LocalDeserialize::base`, with `load_vec`, `load_list` and `load_map`. -/
def load : (t : Ty) → Load (Val t)
  | .scalar s => loadScalar s.size
  | .string => loadString
  | .vec t => fun obj ar =>
    let (size, ar) := loadSize ar
    let obj := resize (default t) size obj
    match loadArray t with
    | some load => load obj ar
    | none => loadElems (load t) obj ar
  | .list t => fun obj ar =>
    let (size, ar) := loadSize ar
    loadList (load t) (default t) size obj ar
  | .map k t => fun obj ar =>
    let (size, ar) := loadSize ar
    loadMap k.eq k.load k.default (load t) (default t) size obj ar

/-! ### Objects -/

def Key.Fits : (k : Key) → k.Val → Prop
  | .scalar _, _ => True
  | .string, text => text.length < 2 ^ 64

/-- What holds of an object: sizes are `size_t`, and the keys of a map are distinct. -/
def Fits : (t : Ty) → Val t → Prop
  | .scalar _, _ => True
  | .string, text => text.length < 2 ^ 64
  | .vec t, v => v.length < 2 ^ 64 ∧ ∀ x ∈ v, Fits t x
  | .list t, v => v.length < 2 ^ 64 ∧ ∀ x ∈ v, Fits t x
  | .map k t, v => v.length < 2 ^ 64 ∧ k.eq.Distinct v ∧ ∀ e ∈ v, k.Fits e.1 ∧ Fits t e.2

/-- An object of a type. -/
structure Obj (t : Ty) where
  val : Val t
  fits : Fits t val

/-- An object that is written, and the one of its type that it is read into. -/
structure Field where
  ty : Ty
  written : Obj ty
  target : Obj ty

/-- The buffer after the objects were written. -/
def serialize (fields : List Field) : Bytes :=
  fields.foldl (fun data f => data ++ save f.ty f.written.val) []

end Serialization
end IowarpCore
