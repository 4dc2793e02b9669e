import BlockExchange.Proofs.Connection.Run
import Mathlib.Tactic.SplitIfs

namespace BlockExchange

namespace Dynamics

section

variable {σ τ : Type} {y : Dynamics σ τ} {P : σ → Prop}
  (hstep : ∀ t s s', P s → y.step t s = some s' → P s')

include hstep

theorem turn_induct (t : τ) (steps : Nat) {s : σ} (h : P s) : P (y.turn t steps s) := by
  induction steps generalizing s with
  | zero => exact h
  | succ steps ih =>
    rw [turn]
    cases hs : y.step t s with
    | none => exact h
    | some s' =>
      have hnext := hstep t s s' h hs
      dsimp only
      split_ifs
      · exact hnext
      · exact ih hnext

variable [DecidableEq τ]

theorem turns_induct (most : Nat) (queue : List τ) {s : σ} (h : P s) : P (y.turns most queue s) := by
  induction most generalizing queue s with
  | zero => exact h
  | succ most ih =>
    cases queue with
    | cons t queue => exact ih _ (turn_induct hstep t (most + 1) h)
    | nil =>
      rw [turns]
      split
      · exact h
      · exact ih _ h

theorem settle_induct {s : σ} (h : P s) : P (y.settle s) := turns_induct hstep patience _ h

variable (hnow : ∀ now s, P s → P (y.setNow now s))

include hnow

theorem passTo_induct (goal stops : Nat) {s : σ} (h : P s) : P (y.passTo goal stops s) := by
  induction stops generalizing s with
  | zero => exact hnow goal s h
  | succ stops ih =>
    rw [passTo]
    split
    · exact hnow goal s h
    · split_ifs
      · exact hnow goal s h
      · exact ih (settle_induct hstep (hnow _ s h))

theorem pass_induct (span : Nat) {s : σ} (h : P s) : P (y.pass span s) :=
  settle_induct hstep (passTo_induct hstep hnow _ span (settle_induct hstep h))

end

end Dynamics

namespace Site

inductive Event where
  | dial (device : DeviceId) (address : String) (found : Option (Stream × Peer))
  | undergo (n : Nat) (e : Incident)
  | pass (span : Nat)

def react (s : Site) : Event → Site
  | .dial device address found => s.dial device address found
  | .undergo n e => s.undergo n e
  | .pass span => dynamics.pass span s

end Site

namespace Course

structure Follows (c : Course) (s : Site) (n : Nat) : Prop where
  session : s.sessions[n]? = some c.session
  index : c.index = s.index
  now : c.now = s.now

variable {c : Course} {s s' : Site} {n : Nat}

theorem follows_dial (device : DeviceId) (address : String) (found : Option (Stream × Peer))
    (s : Site) :
    (starting (.dialed device address found) s.index s.now).Follows (s.dial device address found)
      s.sessions.length :=
  ⟨List.getElem?_concat_length, rfl, rfl⟩

theorem Follows.dial (h : c.Follows s n) (device : DeviceId) (address : String)
    (found : Option (Stream × Peer)) : c.Follows (s.dial device address found) n := by
  have hn : n < s.sessions.length := (List.getElem?_eq_some_iff.mp h.session).1
  exact ⟨(List.getElem?_append_left hn).trans h.session, h.index, h.now⟩

theorem Follows.exists_move_step (h : c.Follows s n) {p : Nat × Party} (hstep : s.step p = some s') :
    ∃ m, (c.move s.surroundings m).Follows s' n ∧ s'.surroundings = s.surroundings := by
  obtain ⟨session, hsession, hstep⟩ := Option.bind_eq_some_iff.mp hstep
  obtain ⟨⟨i, session'⟩, hnext, rfl⟩ := Option.map_eq_some_iff.mp hstep
  by_cases hp : p.1 = n
  · rw [hp, h.session, Option.some.injEq] at hsession
    subst hsession
    have hn : n < s.sessions.length := (List.getElem?_eq_some_iff.mp h.session).1
    refine ⟨.party p.2, ?_, rfl⟩
    rw [move, h.index, h.now, hnext]
    exact ⟨by rw [hp]; exact List.getElem?_set_self hn, rfl, h.now⟩
  · exact ⟨.elsewhere i, ⟨(List.getElem?_set_ne hp).trans h.session, rfl, h.now⟩, rfl⟩

theorem Follows.exists_run_undergo (h : c.Follows s n) (m : Nat) (e : Incident) :
    ∃ moves, (c.run s.surroundings moves).Follows (s.undergo m e) n := by
  by_cases hm : m = n
  · refine ⟨[.incident e], ?_, h.index, h.now⟩
    rw [hm]
    exact (List.getElem?_modify_eq _ _ _).trans (by rw [h.session]; rfl)
  · exact ⟨[], (List.getElem?_modify_ne _ _ hm).trans h.session, h.index, h.now⟩

theorem Follows.exists_run_pass (h : c.Follows s n) (span : Nat) :
    ∃ moves, (c.run s.surroundings moves).Follows (Site.dynamics.pass span s) n ∧
      (Site.dynamics.pass span s).surroundings = s.surroundings := by
  apply Dynamics.pass_induct (y := Site.dynamics) (P := fun s' => ∃ moves,
    (c.run s.surroundings moves).Follows s' n ∧ s'.surroundings = s.surroundings)
  · rintro p s₁ s₂ ⟨moves, hfollows, hx⟩ hstep
    obtain ⟨m, hm, hx'⟩ := hfollows.exists_move_step hstep
    rw [hx] at hm
    refine ⟨moves ++ [m], ?_, hx'.trans hx⟩
    rw [run_append]
    exact hm
  · rintro now s₁ ⟨moves, hfollows, hx⟩
    refine ⟨moves ++ [.time now], ?_, hx⟩
    rw [run_append]
    exact ⟨hfollows.session, hfollows.index, rfl⟩
  · exact ⟨[], h, rfl⟩

theorem Follows.exists_run_react (h : c.Follows s n) (e : Site.Event) :
    ∃ moves, (c.run s.surroundings moves).Follows (s.react e) n ∧
      (s.react e).surroundings = s.surroundings := by
  cases e with
  | dial device address found => exact ⟨[], h.dial device address found, rfl⟩
  | undergo m e =>
    obtain ⟨moves, hfollows⟩ := h.exists_run_undergo m e
    exact ⟨moves, hfollows, rfl⟩
  | pass span => exact h.exists_run_pass span

theorem exists_run_events (s : Site) (device : DeviceId) (address : String)
    (found : Option (Stream × Peer)) (events : List Site.Event) :
    ∃ moves, ((starting (.dialed device address found) s.index s.now).run s.surroundings moves).Follows
      (events.foldl Site.react (s.dial device address found)) s.sessions.length := by
  have hrun : ∀ {c : Course} {s' : Site}, c.Follows s' s.sessions.length →
      ∃ moves, (c.run s'.surroundings moves).Follows (events.foldl Site.react s')
        s.sessions.length := by
    induction events with
    | nil => exact fun h => ⟨[], h⟩
    | cons e rest ih =>
      intro c s' h
      obtain ⟨moves, hfirst, hx⟩ := h.exists_run_react e
      obtain ⟨more, hrest⟩ := ih hfirst
      rw [hx] at hrest
      refine ⟨moves ++ more, ?_⟩
      rw [run_append]
      exact hrest
  exact hrun (follows_dial device address found s)

end Course

end BlockExchange
