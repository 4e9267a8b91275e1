/-
Failure detectors on nodes that exchange tasks.

Every node runs the network worker of `Cluster/Remote.lean` and the failure detector of
`Cluster/Swim.lean` over one host table.  The probes of a detector are tasks: `Heartbeat` for
the node that is probed, `ProbeRequest` for a helper, which sends a `Heartbeat` of its own and
waits for it.  `AsyncHeartbeat` and `AsyncProbeRequest` hand a task over to be sent; `SendIn`
takes it up later, under the address it has.  The future of a probe is complete when `EndTask`
has completed its task.

A `ProbeRequest` looks at its future again and again.  Only the look at which it ends is a
step here.

`issued`, which task of the network a probe became, and `helped`, which `Heartbeat` a
`ProbeRequest` sent, are not in the source.
-/
import IowarpCore.Cluster.Swim
import IowarpCore.Cluster.World

namespace IowarpCore
namespace Cluster

inductive Method where
  | heartbeat
  | probeRequest
  | other
  deriving DecidableEq, Repr

/-- What the tasks carry: `ProbeRequestTask`, and nothing of the others but their method. -/
structure Body where
  method : Method
  targetNodeId : Node
  probeResult : Int
  deriving DecidableEq, Repr

/-- The outputs of the answer. -/
def Body.aggregate (origin answer : Body) : Body :=
  { origin with probeResult := answer.probeResult }

namespace ProbeTask

/-- The node a probe is sent to. -/
def dest : ProbeTask → Node
  | heartbeat node => node
  | probeRequest helper _ => helper

def body : ProbeTask → Body
  | heartbeat node => ⟨.heartbeat, node, 0⟩
  | probeRequest _ target => ⟨.probeRequest, target, -1⟩

end ProbeTask

/-- A probe that `SendIn` took up. -/
structure Issued where
  sendId : Nat
  future : Nat
  task : ProbeTask
  deriving DecidableEq, Repr

/-- A `ProbeRequest` that was started, with the future of its `Heartbeat`. -/
structure Helping where
  task : NetTask Body
  future : Nat
  start : Time
  deriving DecidableEq, Repr

structure System where
  net : World Body
  detector : UInt32 → Swim
  issued : UInt32 → List Issued
  helped : UInt32 → List Helping

inductive SystemOp where
  | net (op : WorldOp Body)
  | heartbeatProbe (n : UInt32) (env : ProbeEnv) (now : Time)
  | resumeProbe (n : UInt32) (env : ProbeEnv)
  | sendProbe (n : UInt32) (k : Nat) (env : Env Body) (addr : UInt64)
  | heartbeat (n : UInt32) (i : Nat) (env : Env Body)
  | startProbeRequest (n : UInt32) (i : Nat) (now : Time)
  | endProbeRequest (n : UInt32) (i j : Nat) (env : Env Body) (now : Time)

/-- The pool of the admin module. -/
def adminPool : PoolId := ⟨1, 0⟩

/-- A probe as `SendIn` gets it. -/
def ProbeTask.outgoing (task : ProbeTask) : NetState.Outgoing Body :=
  { poolId := adminPool, poolQuery := PoolQuery.physical task.dest.toUInt32, body := task.body
    poolQueries := [PoolQuery.physical task.dest.toUInt32], hasContainer := false }

namespace System

variable (sys : System)

def start (hosts : UInt32 → AMap Node Host) : System where
  net := World.start hosts
  detector := fun n => Swim.start (IpcManager.load n.toUInt64 (hosts n))
  issued := fun _ => []
  helped := fun _ => []

/-- The task of a future once it is complete. -/
def ended? (n : UInt32) (future : Nat) : Option (OriginTask Body) :=
  match (sys.issued n).find? fun i => i.future = future with
  | none => none
  | some i => (sys.net.nodes n).ended.find? fun origin => origin.sendId = i.sendId

/-- What a detector sees of a future. -/
def result (n : UInt32) (future : Nat) : Option Int :=
  (sys.ended? n future).map fun origin => origin.body.probeResult

/-- The detector of a node, over the host table of the node. -/
def swim (n : UInt32) : Swim := { sys.detector n with ipc := (sys.net.nodes n).ipc }

/-- A step of the detector of a node. -/
def detect (n : UInt32) (s : Swim) : System :=
  { sys with
    net := sys.net.runAt n fun net => { net with ipc := s.ipc }
    detector := Function.update sys.detector n s }

/-- The tasks that are neither `Heartbeat` nor `ProbeRequest`, the queues, and the wire. -/
def stepNet : WorldOp Body → World Body
  | .sendIn n env addr task =>
    sys.net.apply (.sendIn n env addr { task with body := { task.body with method := .other } })
  | .finish n env i body =>
    match (sys.net.nodes n).dispatched[i]? with
    | none => sys.net
    | some task =>
      if task.body.method = .other then
        sys.net.apply (.finish n env i { body with method := .other })
      else sys.net
  | .recvOut k env => sys.net.apply (.recvOut k { env with aggregate := Body.aggregate })
  | .setNodeState _ _ _ _ => sys.net
  | op => sys.net.apply op

/-- `SendIn` of the `k`th probe of a node, once. -/
def sendProbe (n : UInt32) (k : Nat) (env : Env Body) (addr : UInt64) : System :=
  match (sys.detector n).sent[k]? with
  | none => sys
  | some (future, task) =>
    if (sys.issued n).any fun i => i.future = future then sys
    else
      { sys with
        net := sys.net.apply (.sendIn n env addr task.outgoing)
        issued :=
          if env.hasContainer adminPool then
            Function.update sys.issued n
              (sys.issued n ++ [⟨(sys.net.nodes n).nextSend, future, task⟩])
          else sys.issued }

/-- `Heartbeat`: the answer is all it does. -/
def heartbeat (n : UInt32) (i : Nat) (env : Env Body) : System :=
  match (sys.net.nodes n).dispatched[i]? with
  | none => sys
  | some task =>
    if task.body.method = .heartbeat then
      { sys with net := sys.net.apply (.finish n env i task.body) }
    else sys

/-- `ProbeRequest` up to its loop, once. -/
def startProbeRequest (n : UInt32) (i : Nat) (now : Time) : System :=
  match (sys.net.nodes n).dispatched[i]? with
  | none => sys
  | some task =>
    if task.body.method = .probeRequest ∧ ¬(sys.helped n).any fun h => h.task = task then
      let s := sys.detector n
      { sys with
        detector := Function.update sys.detector n
          { s with
            nextFuture := s.nextFuture + 1
            sent := s.sent ++ [(s.nextFuture, .heartbeat task.body.targetNodeId)] }
        helped := Function.update sys.helped n
          (sys.helped n ++ [⟨task, s.nextFuture, now⟩]) }
    else sys

/-- `ProbeRequest` at the look at which it ends. -/
def endProbeRequest (n : UInt32) (i j : Nat) (env : Env Body) (now : Time) : System :=
  match (sys.net.nodes n).dispatched[i]?, (sys.helped n)[j]? with
  | some task, some helping =>
    if helping.task = task then
      if (sys.result n helping.future).isSome then
        { sys with net := sys.net.apply (.finish n env i { task.body with probeResult := 0 }) }
      else if F32.le kIndirectProbeTimeoutSec (elapsed now helping.start) then
        { sys with net := sys.net.apply (.finish n env i { task.body with probeResult := -1 }) }
      else sys
    else sys
  | _, _ => sys

def apply : SystemOp → System
  | .net op => { sys with net := sys.stepNet op }
  | .heartbeatProbe n env now =>
    let s := sys.swim n
    if s.checking.isNone then
      sys.detect n (s.heartbeatProbe { env with result := sys.result n } now)
    else sys
  | .resumeProbe n env => sys.detect n ((sys.swim n).resumeProbe env)
  | .sendProbe n k env addr => sys.sendProbe n k env addr
  | .heartbeat n i env => sys.heartbeat n i env
  | .startProbeRequest n i now => sys.startProbeRequest n i now
  | .endProbeRequest n i j env now => sys.endProbeRequest n i j env now

end System
end Cluster
end IowarpCore
