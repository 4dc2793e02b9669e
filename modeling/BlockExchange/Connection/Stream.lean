import BlockExchange.Exchange.Error
/-!
The byte stream under a connection, and the pen: whoever writes a frame holds it until the frame is
complete, and the others wait for it in order.
-/

namespace BlockExchange

inductive Agent where
  | control
  | deferral
  | reader
  | keepAlive
  | worker (ticket : Nat)
  | submitter
  | caller
  deriving DecidableEq, Repr

structure Pipe where
  bytes : Bytes := []
  closed : Bool := false
  deriving DecidableEq, Repr

namespace Pipe

def capacity : Nat := 64 * 1024

def room (p : Pipe) : Nat := capacity - p.bytes.length

def close (p : Pipe) : Pipe := { p with closed := true }

def write (p : Pipe) (bytes : Bytes) : Pipe :=
  { p with bytes := p.bytes ++ bytes.take p.room }

def excess (p : Pipe) (bytes : Bytes) : Bytes := bytes.drop p.room

end Pipe

structure Stream where
  certificate : Bytes
  inbound : Pipe := {}
  outbound : Pipe := {}
  connected : Bool := true
  pen : List Agent := []
  deriving DecidableEq, Repr

namespace Stream

def disconnect (s : Stream) : Stream := { s with connected := false }

def release (s : Stream) (a : Agent) : Stream := { s with pen := s.pen.erase a }

def close (s : Stream) : Stream :=
  { s with inbound := s.inbound.close, outbound := s.outbound.close, connected := false, pen := [] }

end Stream

inductive Progress (σ α : Type) where
  | going (s : σ)
  | done (a : α)

inductive Sending where
  | refused (e : CodecError)
  | asking (frame : Bytes)
  | waiting (frame : Bytes)
  | writing (rest : Bytes)
  deriving DecidableEq, Repr

namespace Sending

def ofFrame : Except CodecError Bytes → Sending
  | .ok frame => asking frame
  | .error e => refused e

def ofHello (h : Hello) : Sending := ofFrame (Frame.encodeHello h)

def ofMessage (m : Message) : Sending := ofFrame (Frame.encode m)

def advance (a : Agent) (s : Stream) :
    Sending → Option (Progress Sending (Except ExchangeError Unit) × Stream)
  | refused e => some (.done (.error (.codec e)), s)
  | asking frame => some (.going (.waiting frame), { s with pen := s.pen ++ [a] })
  | waiting frame =>
    if s.pen.head? ≠ some a then none
    else if s.connected then some (.going (.writing frame), s)
    else some (.done (.error .closed), s.release a)
  | writing [] => some (.done (.ok ()), s.release a)
  | writing rest =>
    if s.outbound.closed then some (.done (.error .broken), (s.release a).disconnect)
    else if s.outbound.room = 0 then none
    else some (.going (.writing (s.outbound.excess rest)),
      { s with outbound := s.outbound.write rest })

/-- Leaves off writing. Nothing may follow half a frame. -/
def abandon (a : Agent) (s : Stream) : Sending → Stream
  | writing _ => (s.release a).disconnect
  | _ => s.release a

end Sending

end BlockExchange
