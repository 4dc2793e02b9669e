import BlockExchange.Connection.Stream

namespace BlockExchange

structure Intake where
  missing : Nat
  taken : Bytes := []
  deriving DecidableEq, Repr

namespace Intake

def bytes (i : Intake) : Bytes := i.taken.reverse

def fill (i : Intake) (bytes : Bytes) : Intake :=
  ⟨i.missing - bytes.length, bytes.reverseAux i.taken⟩

def take (i : Intake) (p : Pipe) : Option (Except ExchangeError Intake × Pipe) :=
  match p.bytes.take i.missing with
  | [] => if p.closed then some (.error .closed, p) else none
  | bytes => some (.ok (i.fill bytes), { p with bytes := p.bytes.drop i.missing })

end Intake

inductive Incoming where
  | header (i : Intake)
  | payload (i : Intake)
  deriving DecidableEq, Repr

namespace Incoming

variable {α : Type}

def start (f : Frame.Format α) : Incoming := .header ⟨f.headerLength, []⟩

def length (f : Frame.Format α) : Incoming → Nat
  | header i => i.taken.length
  | payload i => f.headerLength + i.taken.length

def await (i : Intake) (p : Pipe) (next : Intake → Incoming) :
    Option (Progress Incoming (Except ExchangeError α) × Pipe) :=
  (i.take p).map fun (r, p) =>
    match r with
    | .ok i => (.going (next i), p)
    | .error e => (.done (.error e), p)

def advance (f : Frame.Format α) (p : Pipe) :
    Incoming → Option (Progress Incoming (Except ExchangeError α) × Pipe)
  | header i =>
    if i.missing = 0 then
      match f.payloadLength i.bytes with
      | .ok n => some (.going (.payload ⟨n, []⟩), p)
      | .error e => some (.done (.error (.codec e)), p)
    else await i p header
  | payload i =>
    if i.missing = 0 then some (.done ((f.decode i.bytes).mapError .codec), p)
    else await i p payload

def run (f : Frame.Format α) :
    (steps : Nat) → Pipe → Incoming → Progress Incoming (Except ExchangeError α) × Pipe
  | 0, p, r => (.going r, p)
  | steps + 1, p, r =>
    match r.advance f p with
    | none => (.going r, p)
    | some (.going r, p) => run f steps p r
    | some (.done a, p) => (.done a, p)

def read (f : Frame.Format α) (p : Pipe) (r : Incoming) :
    Progress Incoming (Except ExchangeError α) × Pipe :=
  r.run f 4 p

end Incoming

end BlockExchange
