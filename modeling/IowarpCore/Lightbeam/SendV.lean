/-
What the system calls of `SendV` come to.

`sendV` of `SocketTransport` says what is on the connection when it returns.  Here each
call of `writev` has an outcome of its own, an error among them, and the number that
`SendV` returns is kept: the bytes sent, or -1.
-/
import IowarpCore.Lightbeam.SocketTransport

namespace IowarpCore
namespace Lightbeam

/-- What a call of `writev` comes to. -/
inductive Writev where
  /-- It takes up to `most` bytes. -/
  | wrote (most : Nat)
  /-- `EINTR`. -/
  | interrupted
  /-- `EAGAIN`, and whether the `poll` after it finds the socket writable. -/
  | wouldBlock (ready : Bool)
  /-- Another error. -/
  | failed
deriving DecidableEq, Repr

namespace Writev

/-- The call writes. -/
def Writes : Writev → Prop
  | .wrote most => 0 < most
  | _ => False

/-- The call writes, or it is to be made again. -/
def Goes : Writev → Prop
  | .wrote most => 0 < most
  | .interrupted => True
  | .wouldBlock ready => ready = true
  | .failed => False

/-- How much the call takes. -/
def takes : Writev → Nat
  | .wrote most => most
  | .interrupted | .wouldBlock _ | .failed => 0

end Writev

/-- The loop of `SendV`: `none` while it goes on, what it returns and the bytes on the
connection once it returns. -/
def sendVCalls (total : Nat) (calls : List Writev) (iov : List Bytes) (sent : Nat) (out : Bytes) :
    Option (Int × Bytes) :=
  if sent ≥ total then some (sent, out)
  else
    match calls with
    | [] => none
    | .failed :: _ => some (-1, out)
    | .interrupted :: calls => sendVCalls total calls iov sent out
    | .wouldBlock ready :: calls =>
      if ready then sendVCalls total calls iov sent out else some (-1, out)
    | .wrote most :: calls =>
      let n := min most iov.flatten.length
      sendVCalls total calls (advance n iov) (sent + n) (out ++ iov.flatten.take n)

/-- `SendV`, call by call. -/
def sendVAgainst (calls : List Writev) (iov : List Bytes) : Option (Int × Bytes) :=
  sendVCalls iov.flatten.length calls (iov.take 64) 0 []

end Lightbeam
end IowarpCore
