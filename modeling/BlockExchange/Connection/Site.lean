import BlockExchange.Connection.Peer
import BlockExchange.Connection.Step
import BlockExchange.Dynamics

namespace BlockExchange

structure Session where
  connection : Connection
  peer : Peer := {}

inductive Incident where
  | submit (call : Nat) (action : Action)
  | release
  | peer (d : Deed)

inductive Party where
  | agent (a : Agent)
  | peerReading
  | peerWriting
  deriving DecidableEq

structure Site where
  surroundings : Surroundings
  index : Index
  now : Nat := 0
  sessions : List Session := []

namespace Session

def parties (s : Session) : List Party :=
  .agent .reader :: .agent .keepAlive :: s.connection.workers.map (.agent <| .worker ·.ticket) ++
    [.agent .deferral, .agent .control, .agent .submitter, .agent .caller, .peerReading,
      .peerWriting]

def stepPeer (move : Peer → Stream → Option (Stream × Peer)) (s : Session) : Option Session :=
  s.connection.stream.bind fun stream =>
    (move s.peer stream).map fun (stream, peer) =>
      ⟨{ s.connection with stream := some stream }, peer⟩

def undergo (e : Incident) (s : Session) : Session :=
  match e with
  | .submit call action => { s with connection := s.connection.submit call action }
  | .release => { s with connection := s.connection.release }
  | .peer d => (s.stepPeer fun peer stream => some (peer.act d stream)).getD s

def takeAnswers (s : Session) : List (Nat × Outcome) × Session :=
  (s.connection.answers, { s with connection := { s.connection with answers := [] } })

def step (x : Surroundings) (now : Nat) (p : Party) (i : Index) (s : Session) :
    Option (Index × Session) :=
  match p with
  | .agent a => (s.connection.step x now a i).map fun (i, c) => (i, { s with connection := c })
  | .peerReading => (s.stepPeer Peer.stepReading).map (i, ·)
  | .peerWriting => (s.stepPeer Peer.stepWriting).map (i, ·)

def yields (p : Party) (s : Session) : Bool :=
  match p, s.connection.control, s.connection.reader with
  | .agent .control, .stopping _, _ => true
  | .agent .reader, _, .merging .. => true
  | _, _, _ => false

def waits (p : Party) (s : Session) : Bool :=
  match p, s.connection.reader with
  | .agent .reader, .merging .. => true
  | _, _ => false

def alarms (s : Session) : List Nat :=
  (match s.connection.keepAlive with
    | .resting due => [due]
    | _ => []) ++
  match s.connection.control with
    | .parting _ _ deadline => [deadline]
    | _ => []

end Session

namespace Site

def undergo (n : Nat) (e : Incident) (s : Site) : Site :=
  { s with sessions := s.sessions.modify n (·.undergo e) }

def step (p : Nat × Party) (s : Site) : Option Site :=
  s.sessions[p.1]?.bind fun session =>
    (session.step s.surroundings s.now p.2 s.index).map fun (index, session) =>
      { s with index, sessions := s.sessions.set p.1 session }

def parties (s : Site) : List (Nat × Party) :=
  s.sessions.zipIdx.flatMap fun (session, n) => session.parties.map (n, ·)

def dynamics : Dynamics Site (Nat × Party) where
  parties := parties
  step := step
  yields p s := s.sessions[p.1]?.any (·.yields p.2)
  waits p s := s.sessions[p.1]?.any (·.waits p.2)
  now := (·.now)
  setNow now s := { s with now }
  alarms s := s.sessions.flatMap (·.alarms)

def dial (device : DeviceId) (address : String) (found : Option (Stream × Peer)) (s : Site) : Site :=
  { s with sessions := s.sessions ++
    [⟨{ device, address, stream := found.map (·.1) }, (found.map (·.2)).getD {}⟩] }

end Site

end BlockExchange
