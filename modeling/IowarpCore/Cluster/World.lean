/-
Nodes that exchange tasks.

Every node runs the network worker of `Cluster/Remote.lean`.  What a step of a node sends goes
to the messages on their way; these arrive in any order, or get lost.  A node id is the number
of a line of the hostfile and fits into the 32 bits a query has for it.

`served` remembers which node answered what; it is not in the source.
-/
import IowarpCore.Cluster.Remote

namespace IowarpCore
namespace Cluster

open NetState (Outgoing)

variable {π : Type}

structure World (π : Type) where
  nodes : UInt32 → NetState π
  requests : List (Node × NetTask π)
  replies : List (Node × NetTask π)
  served : List (UInt32 × NetTask π)

/-- What can happen next. -/
inductive WorldOp (π : Type) where
  | sendIn (n : UInt32) (env : Env π) (addr : UInt64) (task : Outgoing π)
  | finish (n : UInt32) (env : Env π) (i : Nat) (body : π)
  | processRetryQueues (n : UInt32) (env : Env π)
  | scanSendMapTimeouts (n : UInt32) (env : Env π)
  | setNodeState (n : UInt32) (now : Time) (node : Node) (state : NodeState)
  | setDead (n : UInt32) (now : Time) (node : Node)
  | setAlive (n : UInt32) (now : Time) (node : Node)
  | recvIn (k : Nat) (env : Env π)
  | recvOut (k : Nat) (env : Env π)
  | loseRequest (k : Nat)
  | loseReply (k : Nat)

namespace World

variable (w : World π)

/-- Every node has just started, with its own host table. -/
def start (hosts : UInt32 → AMap Node Host) : World π where
  nodes := fun n => NetState.start (IpcManager.load n.toUInt64 (hosts n))
  requests := []
  replies := []
  served := []

/-- A step of one node. -/
def runAt (n : UInt32) (f : NetState π → NetState π) : World π :=
  let s := f (w.nodes n)
  { w with
    nodes := Function.update w.nodes n { s with requests := [], replies := [] }
    requests := w.requests ++ s.requests
    replies := w.replies ++ s.replies }

/-- The task at a place of a node's list is through, and the node answers. -/
def finish (n : UInt32) (env : Env π) (i : Nat) (body : π) : World π :=
  match (w.nodes n).dispatched[i]? with
  | none => w
  | some task =>
    let w := w.runAt n fun s => s.finish env i body
    { w with served := w.served ++ [(n, { task with body := body })] }

/-- The request at a place of the wire arrives. -/
def recvIn (k : Nat) (env : Env π) : World π :=
  match w.requests[k]? with
  | none => w
  | some (dst, task) =>
    if dst.toUInt32.toUInt64 = dst then
      { w with requests := w.requests.eraseIdx k }.runAt dst.toUInt32 fun s => s.recvIn env task
    else { w with requests := w.requests.eraseIdx k }

/-- The answer at a place of the wire arrives. -/
def recvOut (k : Nat) (env : Env π) : World π :=
  match w.replies[k]? with
  | none => w
  | some (dst, task) =>
    if dst.toUInt32.toUInt64 = dst then
      { w with replies := w.replies.eraseIdx k }.runAt dst.toUInt32 fun s => s.recvOut env task
    else { w with replies := w.replies.eraseIdx k }

def apply : WorldOp π → World π
  | .sendIn n env addr task => w.runAt n fun s => s.sendIn env addr task
  | .finish n env i body => w.finish n env i body
  | .processRetryQueues n env => w.runAt n fun s => s.processRetryQueues env
  | .scanSendMapTimeouts n env => w.runAt n fun s => s.scanSendMapTimeouts env
  | .setNodeState n now node state =>
    w.runAt n fun s => { s with ipc := s.ipc.setNodeState now node state }
  | .setDead n now node => w.runAt n fun s => { s with ipc := s.ipc.setDead now node }
  | .setAlive n now node => w.runAt n fun s => { s with ipc := s.ipc.setAlive now node }
  | .recvIn k env => w.recvIn k env
  | .recvOut k env => w.recvOut k env
  | .loseRequest k => { w with requests := w.requests.eraseIdx k }
  | .loseReply k => { w with replies := w.replies.eraseIdx k }

end World
end Cluster
end IowarpCore
