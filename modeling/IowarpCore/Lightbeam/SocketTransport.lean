/-
The socket transport.

Follows `SocketTransport::Send`, `Recv`, `RecvAll`, `RecvMetadata` and `RecvBulks` of
`socket_transport.h`, and `SendV`, `RecvExact` and `PollRead` of `socket_posix.cc`, on one
connection.

The stream arrives in pieces.  `Socket.schedule` says how many of them become readable
before each call of `recv`; a `poll` that finds nothing waits for the next piece, and
fails only if there is none.  Interrupted calls (`EINTR`) are made again by the source and
are left out, and so is the end of the stream, since the connection stays open.  With an
event manager `Recv` makes the same pass over the descriptors that fired first: that is
another call of `RecvAll`.
-/
import IowarpCore.Lightbeam.Message

namespace IowarpCore
namespace Lightbeam

/-- `htonl` of a 32-bit number, in memory. -/
def beBytes (n : Nat) : Bytes :=
  (leBytes 4 n).reverse

/-- `ntohl`. -/
def beNat (bs : Bytes) : Nat :=
  leNat bs.reverse

/-! ### Sending -/

/-- The loop of `SendV` that steps over what was written: `n` bytes of the buffers. -/
def advance : Nat → List Bytes → List Bytes
  | _, [] => []
  | n, b :: iov => if n ≥ b.length then advance (n - b.length) iov else b.drop n :: iov

/-- The loop of `SendV`.  `accepts` says how many bytes each `writev` takes at most, 0 if
it would block.  `none` while the loop goes on, the bytes written once it returns. -/
def sendVLoop (total : Nat) : List Nat → List Bytes → Nat → Bytes → Option Bytes
  | accepts, iov, sent, out =>
    if sent ≥ total then some out
    else
      match accepts with
      | [] => none
      | a :: accepts =>
        let n := min a iov.flatten.length
        sendVLoop total accepts (advance n iov) (sent + n) (out ++ iov.flatten.take n)

/-- `SendV`: `local_iov` has room for 64 buffers. -/
def sendV (accepts : List Nat) (iov : List Bytes) : Option Bytes :=
  sendVLoop iov.flatten.length accepts (iov.take 64) 0 []

section

variable {P : Type} (C : Codec P)

/-- The buffers of a message: the length of the metadata, the metadata, and the bulks that
are marked for transfer. -/
def buffers (m : Message P) : List Bytes :=
  beBytes (C.metaStr m).length :: C.metaStr m ::
    (m.send.filter fun b => b.desc.xfer).map Bulk.data

/-- `Send`.  What was put on the connection when it returned 0. -/
def send (accepts : List Nat) (m : Message P) : Option Bytes :=
  sendV accepts (buffers C m)

end

/-! ### The receiving end -/

/-- One end of a connection: what is readable, the pieces that are not yet, and how many of
these become readable before each `recv`. -/
structure Socket where
  readable : Bytes
  pieces : List Bytes
  schedule : List Nat
deriving DecidableEq, Repr

namespace Socket

/-- What becomes readable before the next `recv`. -/
def arrive (s : Socket) : Socket :=
  let k := s.schedule.headD 0
  ⟨s.readable ++ (s.pieces.take k).flatten, s.pieces.drop k, s.schedule.tail⟩

/-- `recv` of up to `len` bytes; `none` for `EAGAIN`. -/
def recv (len : Nat) (s : Socket) : Option Bytes × Socket :=
  let s := s.arrive
  if s.readable = [] then (none, s)
  else (some (s.readable.take len), { s with readable := s.readable.drop len })

/-- `PollRead(fd, 1000) > 0`. -/
def pollRead (s : Socket) : Bool × Socket :=
  if s.readable ≠ [] then (true, s)
  else
    match s.pieces with
    | [] => (false, s)
    | p :: pieces => (true, { s with readable := p, pieces := pieces })

/-- What was sent and not received. -/
def unread (s : Socket) : Bytes :=
  s.readable ++ s.pieces.flatten

end Socket

/-- What a receiving function returns: 0, `EAGAIN`, or another error. -/
inductive Rc where
  | ok
  | again
  | error
deriving DecidableEq, Repr

/-- The loop of `RecvExact`, with what it has received. -/
def recvExactLoop (len : Nat) : Nat → Bytes → Socket → Rc × Bytes × Socket
  | 0, got, s => (.error, got, s)
  | fuel + 1, got, s =>
    if got.length ≥ len then (.ok, got, s)
    else
      match s.recv (len - got.length) with
      | (some bytes, s) => recvExactLoop len fuel (got ++ bytes) s
      | (none, s) =>
        if got = [] then (.again, got, s)
        else
          match s.pollRead with
          | (true, s) => recvExactLoop len fuel got s
          | (false, s) => (.error, got, s)

/-- `RecvExact`.  A pass receives a byte or waits for one, so there are at most `2 * len`
of them and the one that returns. -/
def recvExact (len : Nat) (s : Socket) : Rc × Bytes × Socket :=
  recvExactLoop len (2 * len + 1) [] s

/-- The loop of `RecvBulks` for one bulk.  After a poll that reports bytes `RecvExact`
finds them, so the third pass is not reached. -/
def recvBulkLoop (size : Nat) : Nat → Socket → Rc × Bytes × Socket
  | 0, s => (.error, [], s)
  | fuel + 1, s =>
    match recvExact size s with
    | (.again, _, s) =>
      match s.pollRead with
      | (true, s) => recvBulkLoop size fuel s
      | (false, s) => (.error, [], s)
    | r => r

def recvBulk (size : Nat) (s : Socket) : Rc × Bytes × Socket :=
  recvBulkLoop size 2 s

/-- `RecvBulks`: of each descriptor the bytes, if it is marked for transfer. -/
def recvBulks : List Desc → Socket → Rc × List (Option Bytes) × Socket
  | [], s => (.ok, [], s)
  | d :: ds, s =>
    if d.xfer then
      match recvBulk d.size s with
      | (.ok, bytes, s) =>
        let r := recvBulks ds s
        (r.1, some bytes :: r.2.1, r.2.2)
      | (_, _, s) => (.error, [], s)
    else
      let r := recvBulks ds s
      (r.1, none :: r.2.1, r.2.2)

section

variable {P : Type} (C : Codec P)

/-- `RecvMetadata`. -/
def recvMetadata (s : Socket) : Rc × Option (P × List Desc) × Socket :=
  match recvExact 4 s with
  | (.again, _, s) => (.again, none, s)
  | (.error, _, s) => (.error, none, s)
  | (.ok, netLen, s) =>
    match recvExact (beNat netLen) s with
    | (.ok, metaStr, s) =>
      match C.de metaStr with
      | some x => (.ok, some x, s)
      | none => (.error, none, s)
    | (_, _, s) => (.error, none, s)

/-- What the receiver has of a message: the caller's part of the metadata, the descriptors,
and the bytes of each bulk that was transferred. -/
structure Received (P : Type) where
  payload : P
  descs : List Desc
  bulks : List (Option Bytes)
deriving DecidableEq, Repr

/-- What a call of `Recv` returns. -/
inductive Result (P : Type) where
  | message (r : Received P)
  | again
  | error
deriving DecidableEq, Repr

/-- `RecvAll`. -/
def recvAll (s : Socket) : Result P × Socket :=
  match recvMetadata C s with
  | (.ok, some (payload, descs), s) =>
    match recvBulks descs s with
    | (.ok, bulks, s) => (.message ⟨payload, descs, bulks⟩, s)
    | (_, _, s) => (.error, s)
  | (.again, _, s) => (.again, s)
  | (_, _, s) => (.error, s)

/-- The connection as the receiving side has it.  A server closes it on an error. -/
structure Conn where
  sock : Socket
  closed : Bool
deriving DecidableEq, Repr

inductive TransportMode where
  | client
  | server
deriving DecidableEq, Repr

/-- `Recv`. -/
def recv (mode : TransportMode) (c : Conn) : Result P × Conn :=
  if c.closed then (.again, c)
  else
    match recvAll C c.sock with
    | (.error, s) => (.error, ⟨s, mode = .server⟩)
    | (r, s) => (r, ⟨s, false⟩)

end

end Lightbeam
end IowarpCore
