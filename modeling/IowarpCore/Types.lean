/-
The identifiers and routing data every module of the runtime shares.

`UniqueId` names pools and tags.  `PoolQuery` says where a task is routed; the
write-ahead log and the metadata snapshot store it as the raw bytes of the C++
object, eight 32-bit words without padding, and `PoolQuery.raw` is that image.
-/
import IowarpCore.Lib.Bytes
import IowarpCore.Lib.Ieee

namespace IowarpCore

/-- `chi::UniqueId`. -/
structure UniqueId where
  major : UInt32
  minor : UInt32
  deriving DecidableEq, Repr, Inhabited

abbrev PoolId := UniqueId
abbrev TagId := UniqueId

namespace UniqueId

def null : UniqueId := ⟨0, 0⟩

def isNull (u : UniqueId) : Bool := u.major == 0 && u.minor == 0

end UniqueId

inductive RoutingMode where
  | localMode | directId | directHash | range | broadcast | physical | dynamic
  deriving DecidableEq, Repr, Inhabited

namespace RoutingMode

def toWord : RoutingMode → UInt32
  | localMode => 0
  | directId => 1
  | directHash => 2
  | range => 3
  | broadcast => 4
  | physical => 5
  | dynamic => 6

/-- A word that names no routing mode is not the image of a `RoutingMode`. -/
def ofWord : UInt32 → Option RoutingMode
  | 0 => some localMode
  | 1 => some directId
  | 2 => some directHash
  | 3 => some range
  | 4 => some broadcast
  | 5 => some physical
  | 6 => some dynamic
  | _ => none

@[simp] theorem ofWord_toWord (m : RoutingMode) : ofWord m.toWord = some m := by
  cases m <;> rfl

end RoutingMode

/-- `chi::PoolQuery`. -/
structure PoolQuery where
  routingMode : RoutingMode
  hashValue : UInt32
  containerId : UInt32
  rangeOffset : UInt32
  rangeCount : UInt32
  nodeId : UInt32
  retNode : UInt32
  netTimeout : F32
  deriving DecidableEq, Repr

namespace PoolQuery

def kInvalidContainerId : UInt32 := 0xffffffff

/-- The default constructor, which is also what `PoolQuery::Local()` gives. -/
def localQuery : PoolQuery :=
  ⟨.localMode, 0, kInvalidContainerId, 0, 0, 0, 0, F32.negOne⟩

instance : Inhabited PoolQuery := ⟨localQuery⟩

/-- `sizeof(chi::PoolQuery)` bytes, as `WriteRaw` copies them. -/
def raw (q : PoolQuery) : Bytes :=
  writeU32 q.routingMode.toWord ++ writeU32 q.hashValue ++ writeU32 q.containerId ++
    writeU32 q.rangeOffset ++ writeU32 q.rangeCount ++ writeU32 q.nodeId ++
    writeU32 q.retNode ++ writeU32 q.netTimeout.bits

/-- `ReadRaw` into a `PoolQuery`. -/
def readRaw : Reader PoolQuery := do
  let some routingMode := RoutingMode.ofWord (← readU32) | failure
  let hashValue ← readU32
  let containerId ← readU32
  let rangeOffset ← readU32
  let rangeCount ← readU32
  let nodeId ← readU32
  let retNode ← readU32
  let netTimeout ← readU32
  return ⟨routingMode, hashValue, containerId, rangeOffset, rangeCount, nodeId, retNode,
    ⟨netTimeout⟩⟩

@[simp] theorem raw_length (q : PoolQuery) : q.raw.length = 32 := by simp [raw]

@[simp] theorem readRaw_raw (q : PoolQuery) (rest : Bytes) :
    readRaw.run (q.raw ++ rest) = some (q, rest) := by
  simp [readRaw, raw, List.append_assoc]

end PoolQuery

end IowarpCore
