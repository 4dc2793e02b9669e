import BlockExchange.Connection.State

namespace BlockExchange.Connection

def abandon (a : Agent) (s : Sending) (c : Connection) : Connection :=
  { c with stream := c.stream.map (s.abandon a) }

def write (a : Agent) (s : Sending) (c : Connection) :
    Option (Progress Sending (Except ExchangeError Unit) × Connection) :=
  c.stream.bind fun stream =>
    (s.advance a stream).map fun (p, stream) => (p, { c with stream := some stream })

def dispatch (errand : Errand) (m : Message) (c : Connection) : Connection :=
  { c with
    workers := c.workers ++ [⟨c.nextTicket, errand, .ofMessage m⟩]
    nextTicket := c.nextTicket + 1 }

def deliver (e : Errand) (r : Except ExchangeError Unit) (c : Connection) : Connection :=
  match e, r with
  | .request id, .error cause => { c with reports := c.reports ++ [.unsent id cause] }
  | .request _, .ok () => c
  | .update call, r => c.reply call (.updated r)
  | .response, _ => c

def stepWorker (ticket : Nat) (c : Connection) : Option Connection := do
  let w ← c.workers.find? (·.ticket = ticket)
  match ← c.write (.worker ticket) w.sending with
  | (.going s, c) =>
    return { c with
      workers := c.workers.map fun v => if v.ticket = ticket then { v with sending := s } else v }
  | (.done r, c) =>
    return ({ c with workers := c.workers.filter (·.ticket ≠ ticket) }).deliver w.errand r

def stepKeepAlive (x : Surroundings) (now : Nat) (c : Connection) : Option Connection :=
  match c.keepAlive with
  | .off => none
  | .resting due =>
    if due ≤ now then
      some { c with
        keepAlive := .pinging (due + x.settings.keepAlive.toMillis) (.ofMessage .ping) }
    else none
  | .pinging due s =>
    (c.write .keepAlive s).map fun
      | (.going s, c) => { c with keepAlive := .pinging due s }
      | (.done (.ok ()), c) => { c with keepAlive := .resting due }
      | (.done (.error e), c) => { c with keepAlive := .off, ended := c.ended ++ [.error e] }
  | .refused => some { c with keepAlive := .off, ended := c.ended ++ [.error (.worker x.grief)] }

end BlockExchange.Connection
