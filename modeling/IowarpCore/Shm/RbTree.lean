/-
The red-black tree for preallocated nodes, `hshm::ipc::pre::rb_tree`.

The nodes are cells of the shared memory that the tree links through offset pointers; `mem`
is that memory, and a null pointer is `none`.  Reading through a null pointer ends the
operation with `none`, and so does a loop that has used up its `fuel`: neither happens to a
tree that was built by `emplace` and `pop`.

The fix-up routines are written out twice in the source, once for each side.  They are
written once here, for a side `d`.
-/
import Mathlib.Tactic.Ring
import IowarpCore.Lib.RedBlack

namespace IowarpCore
namespace Shm

open RedBlack (Side)

abbrev RBColor := RedBlack.Color

/-- The offset of a node. -/
abbrev Offset := Nat

abbrev OffsetPtr := Option Offset

/-- `rb_node`, with the key of the derived class. -/
structure RbNode (K : Type) where
  key : K
  color : RBColor
  left : OffsetPtr
  right : OffsetPtr
  parent : OffsetPtr
  deriving DecidableEq, Repr

namespace RbNode

variable {K : Type}

def child (n : RbNode K) : Side → OffsetPtr
  | .left => n.left
  | .right => n.right

def setChild (n : RbNode K) (d : Side) (v : OffsetPtr) : RbNode K :=
  match d with
  | .left => { n with left := v }
  | .right => { n with right := v }

end RbNode

/-- `rb_tree`, together with the memory its nodes are in. -/
structure RbTree (K : Type) where
  size : Nat
  root : OffsetPtr
  mem : Offset → RbNode K

namespace RbTree

variable {K : Type}

/-- `Init`. -/
def init (mem : Offset → RbNode K) : RbTree K := ⟨0, none, mem⟩

/-! ### Writes through a pointer -/

def modify (off : Offset) (f : RbNode K → RbNode K) (s : RbTree K) : RbTree K :=
  { s with mem := fun o => if o = off then f (s.mem o) else s.mem o }

def setColor (off : Offset) (color : RBColor) (s : RbTree K) : RbTree K :=
  s.modify off fun n => { n with color := color }

def setParent (off : Offset) (parent : OffsetPtr) (s : RbTree K) : RbTree K :=
  s.modify off fun n => { n with parent := parent }

def setChild (d : Side) (off : Offset) (v : OffsetPtr) (s : RbTree K) : RbTree K :=
  s.modify off fun n => n.setChild d v

/-- `if (!v.IsNull()) v->parent_ = parent`. -/
def reparent (v parent : OffsetPtr) (s : RbTree K) : RbTree K :=
  match v with
  | none => s
  | some v => s.setParent v parent

/-- `if (!v.IsNull()) v->color_ = BLACK`. -/
def blacken (v : OffsetPtr) (s : RbTree K) : RbTree K :=
  match v with
  | none => s
  | some v => s.setColor v .black

/-- Where `u` hangs below `parent`, or at the root, hang `v`. -/
def relink (u : Offset) (v parent : OffsetPtr) (s : RbTree K) : RbTree K :=
  match parent with
  | none => { s with root := v }
  | some p => if (s.mem p).left = some u then s.setChild .left p v else s.setChild .right p v

/-- The side on which `off` hangs below `parent`. -/
def sideOf (parent off : Offset) (s : RbTree K) : Side :=
  if (s.mem parent).left = some off then .left else .right

def isBlack (v : OffsetPtr) (s : RbTree K) : Bool :=
  match v with
  | none => true
  | some v => (s.mem v).color == .black

/-! ### Transplant and the rotations -/

/-- `Transplant`. -/
def transplant (u : Offset) (v : OffsetPtr) (s : RbTree K) : RbTree K :=
  let s := s.relink u v (s.mem u).parent
  s.reparent v (s.mem u).parent

/-- `x` goes down to side `d`, and its child on the other side goes up. -/
def rotate (d : Side) (x : Offset) (s : RbTree K) : Option (RbTree K) := do
  let y ← (s.mem x).child d.other
  let s := s.setChild d.other x ((s.mem y).child d)
  let s := s.reparent ((s.mem y).child d) (some x)
  let s := s.setParent y (s.mem x).parent
  let s := s.relink x (some y) (s.mem x).parent
  let s := s.setChild d y (some x)
  some (s.setParent x (some y))

def rotateLeft (x : Offset) (s : RbTree K) : Option (RbTree K) := s.rotate .left x

def rotateRight (y : Offset) (s : RbTree K) : Option (RbTree K) := s.rotate .right y

/-! ### Search -/

section

variable [LinearOrder K]

def findLoop (key : K) (s : RbTree K) : Nat → OffsetPtr → Option OffsetPtr
  | 0, _ => none
  | _ + 1, none => some none
  | fuel + 1, some curr =>
    if key < (s.mem curr).key then s.findLoop key fuel (s.mem curr).left
    else if key > (s.mem curr).key then s.findLoop key fuel (s.mem curr).right
    else some (some curr)

/-- `FindNode`, and `find`. -/
def findNode (fuel : Nat) (key : K) (s : RbTree K) : Option OffsetPtr := s.findLoop key fuel s.root

end

/-- `Minimum`. -/
def minimum (s : RbTree K) : Nat → OffsetPtr → Option OffsetPtr
  | 0, _ => none
  | _ + 1, none => some none
  | fuel + 1, some curr =>
    match (s.mem curr).left with
    | none => some (some curr)
    | some left => s.minimum fuel (some left)

/-! ### Insertion -/

/-- The uncle is black: cases 2 and 3 of `FixInsert`.  The node the loop goes on with. -/
def turnNode (d : Side) (node parent grandparent : Offset) (s : RbTree K) :
    Option (Offset × RbTree K) := do
  let (node, parent, grandparent, s) ←
    if (s.mem parent).child d.other = some node then do
      -- Case 2: the node is an inner child.
      let s ← s.rotate d parent
      let above ← (s.mem parent).parent
      let top ← (s.mem above).parent
      some (parent, above, top, s)
    else some (node, parent, grandparent, s)
  -- Case 3: the node is an outer child.
  let s := (s.setColor parent .black).setColor grandparent .red
  let s ← s.rotate d.other (← (s.mem parent).parent)
  some (node, s)

/-- The loop of `FixInsert`. -/
def fixInsertLoop : Nat → Offset → RbTree K → Option (RbTree K)
  | 0, _, _ => none
  | fuel + 1, node, s =>
    match (s.mem node).parent with
    | none => some s
    | some parent =>
      if (s.mem parent).color = .black then some s
      else
        match (s.mem parent).parent with
        | none => some s
        | some grandparent => do
            let d := s.sideOf grandparent parent
            let uncle := (s.mem grandparent).child d.other
            if s.isBlack uncle then
              let (node, s) ← s.turnNode d node parent grandparent
              fixInsertLoop fuel node s
            else
              -- Case 1: the uncle is red.
              let s := (s.setColor parent .black).blacken uncle
              fixInsertLoop fuel grandparent (s.setColor grandparent .red)

/-- `FixInsert`. -/
def fixInsert (fuel : Nat) (node : Offset) (s : RbTree K) : Option (RbTree K) :=
  (s.fixInsertLoop fuel node).map fun s => s.blacken s.root

/-- Where the search for a place to insert ends. -/
inductive Place where
  | duplicate
  | below (parent : OffsetPtr)
  deriving DecidableEq, Repr

section

variable [LinearOrder K]

def placeLoop (key : K) (s : RbTree K) : Nat → OffsetPtr → OffsetPtr → Option Place
  | 0, _, _ => none
  | _ + 1, none, parent => some (.below parent)
  | fuel + 1, some curr, _ =>
    if key < (s.mem curr).key then s.placeLoop key fuel (s.mem curr).left (some curr)
    else if key > (s.mem curr).key then s.placeLoop key fuel (s.mem curr).right (some curr)
    else some .duplicate

/-- `emplace`. -/
def emplace (fuel : Nat) (node : Offset) (s : RbTree K) : Option (RbTree K) :=
  let s := s.modify node fun n =>
    { n with color := .red, left := none, right := none, parent := none }
  match s.root with
  | none =>
    let s := { s with root := some node }.setColor node .black
    some { s with size := s.size + 1 }
  | some root => do
      match ← s.placeLoop (s.mem node).key fuel (some root) none with
      | .duplicate => some s
      | .below parentOff => do
          let s := s.setParent node parentOff
          let parent ← parentOff
          let s :=
            if (s.mem node).key < (s.mem parent).key then s.setChild .left parent (some node)
            else s.setChild .right parent (some node)
          { s with size := s.size + 1 }.fixInsert fuel node

end

/-! ### Deletion -/

/-- The sibling is red: it goes up, and the parent gets a black child in its place. -/
def turnSibling (d : Side) (parent sibling : Offset) (s : RbTree K) : Option (RbTree K) :=
  ((s.setColor sibling .black).setColor parent .red).rotate d parent

/-- The sibling is black and one of its children is red. -/
def turnNephew (d : Side) (parent sibling : Offset) (farBlack : Bool) (s : RbTree K) :
    Option (RbTree K) := do
  let (sibling, s) ←
    if farBlack then do
      let s := (s.blacken ((s.mem sibling).child d)).setColor sibling .red
      let s ← s.rotate d.other sibling
      let sibling ← (s.mem parent).child d.other
      some (sibling, s)
    else some (sibling, s)
  let s := s.setColor sibling (s.mem parent).color
  let s := s.setColor parent .black
  let s := s.blacken ((s.mem sibling).child d.other)
  s.rotate d parent

/-- The loop of `FixDelete`: where it ends, and the tree. -/
def fixDeleteLoop : Nat → OffsetPtr → RbTree K → Option (OffsetPtr × RbTree K)
  | 0, _, _ => none
  | fuel + 1, nodeOff, s =>
    if nodeOff = s.root then some (nodeOff, s)
    else do
      let node ← nodeOff
      if (s.mem node).color = .red then some (nodeOff, s)
      else
        match (s.mem node).parent with
        | none => some (nodeOff, s)
        | some parent =>
          let d := s.sideOf parent node
          match (s.mem parent).child d.other with
          | none => fixDeleteLoop fuel (some parent) s
          | some sibling => do
              let (sibling, s) ←
                if (s.mem sibling).color = .red then do
                  let s ← s.turnSibling d parent sibling
                  some (← (s.mem parent).child d.other, s)
                else some (sibling, s)
              let nearBlack := s.isBlack ((s.mem sibling).child d)
              let farBlack := s.isBlack ((s.mem sibling).child d.other)
              if nearBlack && farBlack then
                fixDeleteLoop fuel (some parent) (s.setColor sibling .red)
              else
                let s ← s.turnNephew d parent sibling farBlack
                fixDeleteLoop fuel s.root s

/-- `FixDelete`. -/
def fixDelete (fuel : Nat) (nodeOff : OffsetPtr) (s : RbTree K) : Option (RbTree K) :=
  (s.fixDeleteLoop fuel nodeOff).map fun (nodeOff, s) => s.blacken nodeOff

/-- `FixDeleteFromParent`: the missing child of `parent` on side `d` is one black node short. -/
def fixDeleteFromParent : Nat → Offset → Side → RbTree K → Option (RbTree K)
  | 0, _, _, _ => none
  | fuel + 1, parent, d, s =>
    match (s.mem parent).child d.other with
    | none => some s
    | some sibling => do
        let (sibling?, s) ←
          -- Case 1: the sibling is red.
          if (s.mem sibling).color = .red then do
            let s ← s.turnSibling d parent sibling
            some ((s.mem parent).child d.other, s)
          else some (some sibling, s)
        match sibling? with
        | none => some s
        | some sibling =>
          let nearBlack := s.isBlack ((s.mem sibling).child d)
          let farBlack := s.isBlack ((s.mem sibling).child d.other)
          if nearBlack && farBlack then
            -- Case 2: the sibling and both its children are black.
            let s := s.setColor sibling .red
            if (s.mem parent).color = .red then some (s.setColor parent .black)
            else if some parent = s.root then some s
            else
              match (s.mem parent).parent with
              | none => some s
              | some grandparent =>
                fixDeleteFromParent fuel grandparent (s.sideOf grandparent parent) s
          else s.turnNephew d parent sibling farBlack

/-- What `pop` has to know of a node it took out. -/
structure Removal where
  originalColor : RBColor
  replace : OffsetPtr
  deletedParent : OffsetPtr
  deletedSide : Side
  deriving DecidableEq, Repr

/-- The side on which `off` hangs below its parent, or the right side. -/
def deletedSide (off : Offset) (s : RbTree K) : Side :=
  match (s.mem off).parent with
  | none => .right
  | some parent => s.sideOf parent off

/-- The successor of a node with two children leaves its own place.  The parent of that
place. -/
def leavePlace (node successor : Offset) (s : RbTree K) : OffsetPtr × RbTree K :=
  if (s.mem successor).parent = some node then
    (some successor, s.reparent (s.mem successor).right (some successor))
  else
    let deletedParent := (s.mem successor).parent
    let s := s.transplant successor (s.mem successor).right
    let s := s.setChild .right successor (s.mem node).right
    (deletedParent, s.reparent (s.mem successor).right (some successor))

/-- The successor takes the place of the node. -/
def takePlace (node successor : Offset) (s : RbTree K) : RbTree K :=
  let s := s.transplant node (some successor)
  let s := s.setChild .left successor (s.mem node).left
  let s := s.reparent (s.mem successor).left (some successor)
  s.setColor successor (s.mem node).color

/-- The first part of `pop`: take the node out of its place. -/
def unlink (fuel : Nat) (node : Offset) (s : RbTree K) : Option (Removal × RbTree K) :=
  if (s.mem node).left = none then
    let replace := (s.mem node).right
    some (⟨(s.mem node).color, replace, (s.mem node).parent, s.deletedSide node⟩,
      s.transplant node replace)
  else if (s.mem node).right = none then
    let replace := (s.mem node).left
    some (⟨(s.mem node).color, replace, (s.mem node).parent, s.deletedSide node⟩,
      s.transplant node replace)
  else do
    let successor ← (← s.minimum fuel (s.mem node).right)
    let (deletedParent, s') := s.leavePlace node successor
    some (⟨(s.mem successor).color, (s.mem successor).right, deletedParent,
      s.deletedSide successor⟩, s'.takePlace node successor)

/-- The second part of `pop`: a black node is missing where one was taken out. -/
def rebalance (fuel : Nat) (removal : Removal) (s : RbTree K) : Option (RbTree K) :=
  if removal.originalColor = .black then
    match removal.replace, removal.deletedParent with
    | some replace, _ => s.fixDelete fuel (some replace)
    | none, some parent =>
      if 0 < s.size then s.fixDeleteFromParent fuel parent removal.deletedSide else some s
    | none, none => some s
  else some s

/-- `pop`. -/
def pop [LinearOrder K] (fuel : Nat) (key : K) (s : RbTree K) : Option (OffsetPtr × RbTree K) :=
  match s.root with
  | none => some (none, s)
  | some _ => do
      match ← s.findNode fuel key with
      | none => some (none, s)
      | some node => do
          let (removal, s) ← s.unlink fuel node
          let s ← { s with size := s.size - 1 }.rebalance fuel removal
          let s := s.blacken s.root
          some (some node, s.modify node fun n =>
            { n with left := none, right := none, parent := none })

/-! ### Runs -/

/-- What is done to a tree: a node that was filled in with a key is inserted, or the node
with a key is removed. -/
inductive Op (K : Type) where
  | emplace (node : Offset) (key : K)
  | pop (key : K)
  deriving DecidableEq, Repr

/-- The tree after an operation, and the node that it returned. -/
def apply [LinearOrder K] (fuel : Nat) : Op K → RbTree K → Option (OffsetPtr × RbTree K)
  | .emplace node key, s =>
    ((s.modify node fun n => { n with key := key }).emplace fuel node).map fun s => (none, s)
  | .pop key, s => s.pop fuel key

/-- The tree after a sequence of operations, and what they returned. -/
def run [LinearOrder K] (fuel : Nat) : List (Op K) → RbTree K → Option (List OffsetPtr × RbTree K)
  | [], s => some ([], s)
  | op :: ops, s => do
      let (answer, s) ← s.apply fuel op
      let (answers, s) ← run fuel ops s
      some (answer :: answers, s)

end RbTree

end Shm
end IowarpCore
