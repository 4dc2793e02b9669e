import BlockExchange.Connection.Incoming

namespace BlockExchange

inductive Received where
  | hello (h : Hello)
  | message (m : Message)

inductive Deed where
  | send (bytes : Bytes)
  | finish
  | leave
  | pause
  | resume
  deriving DecidableEq, Repr

structure Peer where
  name : String := ""
  paused : Bool := false
  gone : Bool := false
  outgoing : Bytes := []
  refused : Bool := false
  stuck : Bool := false
  greeted : Bool := false
  incoming : Incoming := .start Frame.helloFormat
  received : List Received := []
  ended : Bool := false
  noticedEnd : Bool := false

namespace Peer

def takeFrames : (most : Nat) → Pipe → Peer → Peer
  | 0, _, peer => peer
  | most + 1, p, peer =>
    if peer.greeted then
      match peer.incoming.read Frame.messageFormat p with
      | (.going incoming, _) => { peer with incoming }
      | (.done (.error _), _) => peer
      | (.done (.ok m), p) => takeFrames most p { peer with
          received := peer.received ++ [.message m], incoming := .start Frame.messageFormat }
    else
      match peer.incoming.read Frame.helloFormat p with
      | (.going incoming, _) => { peer with incoming }
      | (.done (.error _), _) => peer
      | (.done (.ok h), p) => takeFrames most p { peer with
          received := peer.received ++ [.hello h], incoming := .start Frame.messageFormat
          greeted := true }

def hear (bytes : Bytes) (peer : Peer) : Peer :=
  peer.takeFrames (bytes.length + 1) { bytes }

def leftover (peer : Peer) : Nat :=
  if peer.greeted then peer.incoming.length Frame.messageFormat
  else peer.incoming.length Frame.helloFormat

def stepReading (peer : Peer) (s : Stream) : Option (Stream × Peer) :=
  if peer.paused || peer.gone then none
  else match s.outbound.bytes with
    | [] =>
      if s.outbound.closed && !peer.ended then some (s, { peer with ended := true, noticedEnd := true }) else none
    | bytes => some ({ s with outbound := { s.outbound with bytes := [] } }, peer.hear bytes)

def stepWriting (peer : Peer) (s : Stream) : Option (Stream × Peer) :=
  match peer.outgoing with
  | [] => none
  | bytes =>
    if s.inbound.closed then some (s, { peer with outgoing := [], refused := true })
    else if s.inbound.room = 0 then none
    else some ({ s with inbound := s.inbound.write bytes },
      { peer with outgoing := s.inbound.excess bytes })

def giveUp (peer : Peer) : Peer :=
  { peer with outgoing := [], stuck := peer.stuck || !peer.outgoing.isEmpty }

def act (d : Deed) (peer : Peer) (s : Stream) : Stream × Peer :=
  match d with
  | .send bytes => (s, { peer with outgoing := peer.outgoing ++ bytes })
  | .finish => ({ s with inbound := s.inbound.close }, peer)
  | .leave =>
    ({ s with inbound := s.inbound.close, outbound := s.outbound.close },
      { peer with gone := true, outgoing := [] })
  | .pause => (s, { peer with paused := true })
  | .resume => (s, { peer with paused := false })

def forget (peer : Peer) : Peer :=
  { peer with received := [], refused := false, stuck := false, noticedEnd := false }

end Peer

end BlockExchange
