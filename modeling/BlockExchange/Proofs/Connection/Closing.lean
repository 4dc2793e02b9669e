import BlockExchange.Proofs.Connection.Steps

namespace BlockExchange

def Control.verdict? : Control → Option (Except ExchangeError Unit)
  | parting r _ _ | stopping r | finished r => some r
  | _ => none

def Sending.length : Sending → Nat
  | refused _ => 0
  | asking frame => frame.length + 3
  | waiting frame => frame.length + 2
  | writing rest => rest.length + 1

theorem Sending.length_lt_of_advance {s s' : Sending} {a : Agent} {stream after : Stream}
    (h : s.advance a stream = some (.going s', after)) : s'.length < s.length := by
  unfold advance at h
  split at h
  · cases h
  · cases h
    exact Nat.lt_succ_self _
  · split_ifs at h <;> cases h
    exact Nat.lt_succ_self _
  · cases h
  · rename_i rest hne
    split_ifs at h with hclosed hroom <;> cases h
    have hrest : rest.length ≠ 0 := by simpa using hne
    simp only [length, Pipe.excess, List.length_drop]
    omega

namespace Connection

variable {c : Connection} {r : Except ExchangeError Unit} {s : Sending} {deadline now : Nat}

theorem part_cases (hnow : deadline ≤ now) : ∃ c', c.part now r s deadline = some c' ∧
    ((∃ s', c'.control = .parting r s' deadline ∧ s'.length < s.length) ∨
      c'.control = .stopping r) := by
  unfold part
  cases hw : c.write .control s with
  | none => exact ⟨_, if_pos hnow, .inr rfl⟩
  | some p =>
    obtain ⟨p, c'⟩ := p
    cases p with
    | going s' =>
      obtain ⟨stream, after, -, hadv, rfl⟩ := write_eq_some hw
      exact ⟨_, rfl, .inl ⟨s', rfl, Sending.length_lt_of_advance hadv⟩⟩
    | done a => exact ⟨_, rfl, .inr rfl⟩

end Connection

namespace Course

variable {x : Surroundings} {c : Course} {r : Except ExchangeError Unit}

theorem move_agent {a : Agent} {i : Index} {c' : Connection}
    (h : c.session.connection.step x c.now a c.index = some (i, c')) :
    c.move x (.party (.agent a)) = c.proceed i { c.session with connection := c' } := by
  have hstep : c.session.step x c.now (.agent a) c.index =
      some (i, { c.session with connection := c' }) := by
    simp only [Session.step, h, Option.map_some]
  rw [move, hstep]
  rfl

theorem move_control {i : Index} {c' : Connection}
    (h : c.session.connection.stepControl x c.now c.index = some (i, c')) :
    c.move x (.party (.agent .control)) = c.proceed i { c.session with connection := c' } :=
  move_agent h

theorem move_finish (hc : c.session.connection.control = .stopping r) :
    c.move x (.party (.agent .control)) =
      c.proceed c.index { c.session with connection := c.session.connection.finish r } :=
  move_control (by rw [Connection.stepControl, hc])

theorem exists_finished_of_parting {s : Sending} {deadline : Nat}
    (hc : c.session.connection.control = .parting r s deadline) (hnow : deadline ≤ c.now) :
    ∃ n, (c.run x (List.replicate n (.party (.agent .control)))).session.connection.control =
      .finished r := by
  induction hn : s.length using Nat.strong_induction_on generalizing c s with
  | _ n ih =>
    obtain ⟨c', hpart, hcases⟩ := c.session.connection.part_cases (r := r) (s := s) hnow
    have hstep : c.session.connection.stepControl x c.now c.index = some (c.index, c') := by
      simp only [Connection.stepControl, hc, hpart, Option.map_some]
    have hmove := move_control hstep
    rcases hcases with ⟨s', hc', hlt⟩ | hc'
    · obtain ⟨m, hm⟩ := ih s'.length (hn ▸ hlt)
        (c := c.move x (.party (.agent .control))) (by rw [hmove]; exact hc')
        (by rw [hmove]; exact hnow) rfl
      exact ⟨m + 1, hm⟩
    · refine ⟨2, ?_⟩
      have hstop : (c.move x (.party (.agent .control))).session.connection.control =
          .stopping r := by rw [hmove]; exact hc'
      exact congrArg (·.session.connection.control) (move_finish (x := x) hstop)

theorem exists_finished (hv : c.session.connection.control.verdict? = some r) :
    ∃ now n, c.now ≤ now ∧ (c.run x (.time now :: List.replicate n
      (.party (.agent .control)))).session.connection.control = .finished r := by
  cases hc : c.session.connection.control with rw [hc] at hv
  | parting r' s deadline =>
    cases hv
    obtain ⟨n, hn⟩ := exists_finished_of_parting (x := x) (c := { c with now := max c.now deadline })
      hc (Nat.le_max_right _ _)
    exact ⟨_, n, Nat.le_max_left _ _, hn⟩
  | stopping r' =>
    cases hv
    refine ⟨c.now, 1, Nat.le_refl _, ?_⟩
    exact congrArg (·.session.connection.control) (move_finish (x := x) hc)
  | finished r' =>
    cases hv
    exact ⟨c.now, 0, Nat.le_refl _, hc⟩
  | _ => cases hv

end Course

end BlockExchange
