/-!
Taking turns. The parties move in the order in which they become able to, each as far as
it gets, until nobody can move; time passes only then.
-/

namespace BlockExchange

/-- Parties that move one small step at a time, in a time that stands still while they do. -/
structure Dynamics (σ τ : Type) where
  parties : σ → List τ
  step : τ → σ → Option σ
  yields : τ → σ → Bool
  waits : τ → σ → Bool
  now : σ → Nat
  setNow : Nat → σ → σ
  alarms : σ → List Nat

namespace Dynamics

variable {σ τ : Type} [DecidableEq τ]

def canMove (y : Dynamics σ τ) (s : σ) (t : τ) : Bool := (y.step t s).isSome

def turn (y : Dynamics σ τ) (t : τ) : (steps : Nat) → σ → σ
  | 0, s => s
  | steps + 1, s =>
    match y.step t s with
    | none => s
    | some s => if y.yields t s then s else turn y t steps s

def woken (y : Dynamics σ τ) (queue : List τ) (s : σ) : List τ :=
  (y.parties s).filter fun t => !queue.contains t && y.canMove s t && !y.waits t s

def turns (y : Dynamics σ τ) : (most : Nat) → List τ → σ → σ
  | 0, _, s => s
  | most + 1, t :: queue, s =>
    let s := y.turn t (most + 1) s
    turns y most (queue ++ y.woken queue s) s
  | most + 1, [], s =>
    match (y.parties s).filter (y.canMove s) with
    | [] => s
    | queue => turns y most queue s

def patience : Nat := 1000000000000

def settle (y : Dynamics σ τ) (s : σ) : σ := y.turns patience (y.woken [] s) s

def passTo (y : Dynamics σ τ) (goal : Nat) : (stops : Nat) → σ → σ
  | 0, s => y.setNow goal s
  | stops + 1, s =>
    match ((y.alarms s).filter (y.now s < ·)).min? with
    | none => y.setNow goal s
    | some t =>
      if goal < t then y.setNow goal s
      else passTo y goal stops (y.settle (y.setNow t s))

def pass (y : Dynamics σ τ) (span : Nat) (s : σ) : σ :=
  let s := y.settle s
  y.settle (y.passTo (y.now s + span) span s)

end Dynamics

end BlockExchange
