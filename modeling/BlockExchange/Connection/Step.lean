import BlockExchange.Connection.Handshake
import BlockExchange.Connection.Reading
import BlockExchange.Connection.Serving
/-!
The steps of a connection. Each agent takes one small step at a time, in any order; an agent that has
to wait for something takes none.
-/

namespace BlockExchange.Connection

def stepControl (x : Surroundings) (now : Nat) (i : Index) (c : Connection) :
    Option (Index × Connection) :=
  match c.control, c.reader with
  | .dialing, _ =>
    if c.stream.isNone then some (i, c.giveUp none (.unknownAddress c.address))
    else some (i, { c with
      control := .greeting (some (.ofHello (.ofConfiguration x.configuration x.settings)))
      reader := .hello (.start Frame.helloFormat) })
  | .greeting mine, .greeted theirs => c.exchange mine (some theirs) .greeting (greet x i) i
  | .greeting mine, _ => c.exchange mine none .greeting (greet x i) i
  | .building h folders, _ => some (i, c.offer h folders)
  | .clustering h mine, .opened theirs =>
    c.exchange mine (some theirs) (.clustering h) (agree x i h) i
  | .clustering h mine, _ => c.exchange mine none (.clustering h) (agree x i h) i
  | .agreeing info, _ => some (i, c.activate x now info)
  | .announcing info rest mine, _ => (c.announce x now info rest mine).map (i, ·)
  | .serving info, _ => (c.attend x now info).map (i, ·)
  | .parting result s deadline, _ => (c.part now result s deadline).map (i, ·)
  | .stopping result, _ => some (i, c.finish result)
  | .finished _, _ => none

def stepSubmitter (c : Connection) : Option Connection :=
  c.inbox.occupy?.map fun inbox => { c with inbox }

def stepCaller (c : Connection) : Option Connection :=
  if c.replies.isEmpty then none
  else some { c with
    calls := c.calls.filter fun call => !c.replies.any (·.1 = call)
    answers := c.answers ++ c.replies
    replies := [] }

def step (x : Surroundings) (now : Nat) (a : Agent) (i : Index) (c : Connection) :
    Option (Index × Connection) :=
  match a with
  | .control => c.stepControl x now i
  | .deferral => c.stepDeferral.map (i, ·)
  | .reader => c.stepReader i
  | .keepAlive => (c.stepKeepAlive x now).map (i, ·)
  | .worker ticket => (c.stepWorker ticket).map (i, ·)
  | .submitter => c.stepSubmitter.map (i, ·)
  | .caller => c.stepCaller.map (i, ·)

end BlockExchange.Connection
