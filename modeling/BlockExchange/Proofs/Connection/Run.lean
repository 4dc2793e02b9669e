import BlockExchange.Connection.Site
/-!
Runs of a session. Its parties move in any order, its callers and its peer do what they like, others
use the index and time passes. A `Course` remembers what has been seen of a session from outside.
-/

namespace BlockExchange

structure Link where
  certificate : Bytes
  inbound : Bytes
  outbound : Bytes
  deriving DecidableEq

def Stream.link (s : Stream) : Link := ⟨s.certificate, s.inbound.bytes, s.outbound.bytes⟩

def Connection.link (c : Connection) : Option Link := c.stream.map (·.link)

/-- What has been added behind these bytes. Bytes that only got fewer have nothing behind them. -/
def Bytes.behind (before after : Bytes) : Bytes := after.drop before.length

namespace Session

def dialed (device : DeviceId) (address : String) (found : Option (Stream × Peer)) : Session :=
  ⟨{ device, address, stream := found.map (·.1) }, (found.map (·.2)).getD {}⟩

def phase (s : Session) : Phase := s.connection.phase

def inbound (s : Session) : Bytes := s.connection.link.elim [] (·.inbound)

def outbound (s : Session) : Bytes := s.connection.link.elim [] (·.outbound)

end Session

inductive Move where
  | party (p : Party)
  | incident (e : Incident)
  | telling
  | peer (p : Peer)
  | elsewhere (i : Index)
  | time (now : Nat)

/-- A session on its way. -/
structure Course where
  session : Session
  index : Index
  outside : Index
  now : Nat
  phases : List Phase
  heard : Bytes
  written : Bytes

namespace Course

def starting (s : Session) (i : Index) (now : Nat) : Course where
  session := s
  index := i
  outside := i
  now := now
  phases := [s.phase]
  heard := s.inbound
  written := []

def publish (p : Phase) (published : List Phase) : List Phase :=
  if published.getLast? = some p then published else published ++ [p]

def proceed (i : Index) (s : Session) (c : Course) : Course :=
  { c with
    session := s
    index := i
    phases := publish s.phase c.phases
    heard := c.heard ++ Bytes.behind c.session.inbound s.inbound
    written := c.written ++ Bytes.behind c.session.outbound s.outbound }

def move (x : Surroundings) (c : Course) : Move → Course
  | .party p => (c.session.step x c.now p c.index).elim c fun (i, s) => c.proceed i s
  | .incident e => c.proceed c.index (c.session.undergo e)
  | .telling => c.proceed c.index c.session.takeAnswers.2
  | .peer p => c.proceed c.index { c.session with peer := p }
  | .elsewhere i => { c with index := i, outside := i }
  | .time now => { c with now }

def run (x : Surroundings) (moves : List Move) (c : Course) : Course :=
  moves.foldl (move x) c

theorem run_append (x : Surroundings) (moves more : List Move) (c : Course) :
    c.run x (moves ++ more) = (c.run x moves).run x more :=
  List.foldl_append

end Course

namespace Bytes

@[simp] theorem behind_self (bytes : Bytes) : behind bytes bytes = [] := List.drop_length

@[simp] theorem behind_append (before new : Bytes) : behind before (before ++ new) = new :=
  List.drop_left

theorem behind_of_suffix {before after : Bytes} (h : after <:+ before) : behind before after = [] :=
  List.drop_of_length_le h.length_le

end Bytes

end BlockExchange
