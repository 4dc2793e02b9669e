import BlockExchange.Connection.Writing

namespace BlockExchange.Connection

def stop (r : Except ExchangeError Unit) (c : Connection) : Connection :=
  let c := match c.keepAlive with
    | .pinging _ s => c.abandon .keepAlive s
    | _ => c
  { c with reader := .idle, keepAlive := .off, control := .stopping r }

def giveUp (mine : Option Sending) (e : ExchangeError) (c : Connection) : Connection :=
  (mine.elim c fun s => c.abandon .control s).stop (.error e)

/-- Begins to end an active connection. The last message waits for frames that are being written. -/
def leave (x : Surroundings) (now : Nat) (e : Exit) (c : Connection) : Connection :=
  let c := match e with
    | .peerClosed => c.disconnect
    | _ => c
  if c.isConnected then
    { c with
      control := .parting e.result (.ofMessage (.close e.reason))
        (now + x.settings.closeTimeout.toMillis) }
  else c.stop e.result

def leftovers (c : Connection) : List (Nat × Outcome) :=
  c.workers.filterMap Worker.lost ++
  c.pending.map (fun (_, call) => (call, .response (.error .cancelled))) ++
  c.deferred.filterMap (Submission.lost .cancelled) ++
  c.inbox.accepted.filterMap (Submission.lost .cancelled) ++
  c.inbox.refused.filterMap (Submission.lost .closed) ++
  c.closers.map fun call => (call, .closed)

def finish (r : Except ExchangeError Unit) (c : Connection) : Connection :=
  { c with
    control := .finished r
    stream := c.stream.map (·.close)
    replies := c.replies ++ c.leftovers
    workers := [], pending := [], deferred := [], inbox := .empty, closers := [], reports := [] }

end BlockExchange.Connection
