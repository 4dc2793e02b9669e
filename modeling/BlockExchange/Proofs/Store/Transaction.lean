import BlockExchange.Store.Transaction

namespace BlockExchange.Transaction

variable {ε ε' α β σ : Type} {answer : (q : Query) → σ → Except StoreError q.Reply × σ}

@[simp] theorem run_pure (a : α) (s : σ) :
    (pure a : Transaction ε α).run answer s = (.ok a, s) := rfl

@[simp] theorem run_done (a : α) (s : σ) :
    (done a : Transaction ε α).run answer s = (.ok a, s) := rfl

@[simp] theorem run_fail (e : ε) (s : σ) :
    (fail e : Transaction ε α).run answer s = (.error e, s) := rfl

theorem run_bind (t : Transaction ε α) (f : α → Transaction ε β) (s : σ) :
    (t >>= f).run answer s =
      match t.run answer s with
      | (.ok a, s') => (f a).run answer s'
      | (.error e, s') => (.error e, s') := by
  change (t.bind f).run answer s = _
  induction t generalizing s with
  | done a => rfl
  | fail e => rfl
  | ask q next ih => exact ih _ _

theorem run_bind_ok {t : Transaction ε α} {f : α → Transaction ε β} {s s' : σ} {a : α}
    (h : t.run answer s = (.ok a, s')) : (t >>= f).run answer s = (f a).run answer s' := by
  rw [run_bind, h]

theorem run_bind_error {t : Transaction ε α} {f : α → Transaction ε β} {s s' : σ} {e : ε}
    (h : t.run answer s = (.error e, s')) : (t >>= f).run answer s = (.error e, s') := by
  rw [run_bind, h]

theorem run_bind_eq_ok {t : Transaction ε α} {f : α → Transaction ε β} {s s' : σ} {b : β}
    (h : (t >>= f).run answer s = (.ok b, s')) :
    ∃ a s₁, t.run answer s = (.ok a, s₁) ∧ (f a).run answer s₁ = (.ok b, s') := by
  rw [run_bind] at h
  split at h
  · exact ⟨_, _, ‹_›, h⟩
  · cases h

theorem run_mapError (t : Transaction ε α) (f : ε → ε') (s : σ) :
    (t.mapError f).run answer s =
      ((t.run answer s).1.mapError f, (t.run answer s).2) := by
  induction t generalizing s with
  | done a => rfl
  | fail e => rfl
  | ask q next ih => exact ih _ _

theorem run_ask (q : Query) (s : σ) : q.ask.run answer s = answer q s := by
  simp only [Query.ask, run]
  cases h : (answer q s).1 with
  | ok r => rw [run_done, ← h]
  | error e => rw [run_fail, ← h]

theorem commit_of_run_ok {t : Transaction ε α} {s s' : σ} {a : α}
    (h : t.run answer s = (.ok a, s')) : t.commit answer s = (.ok a, s') := by
  rw [commit, h]

theorem commit_of_run_error {t : Transaction ε α} {s s' : σ} {e : ε}
    (h : t.run answer s = (.error e, s')) : t.commit answer s = (.error e, s) := by
  rw [commit, h]

theorem commit_error {t : Transaction ε α} {s s' : σ} {e : ε}
    (h : t.commit answer s = (.error e, s')) : s' = s := by
  cases hr : t.run answer s with
  | mk r s'' =>
    cases r with
    | ok a => simp [commit_of_run_ok hr] at h
    | error e' =>
      rw [commit_of_run_error hr] at h
      exact (Prod.mk.inj h).2.symm

theorem commit_fst (t : Transaction ε α) (s : σ) :
    (t.commit answer s).1 = (t.run answer s).1 := by
  cases hr : t.run answer s with
  | mk r s' =>
    cases r with
    | ok a => rw [commit_of_run_ok hr]
    | error e => rw [commit_of_run_error hr]

theorem commit_snd {p : σ → Prop} {t : Transaction ε α} {s : σ} (hs : p s)
    (hrun : p (t.run answer s).2) : p (t.commit answer s).2 := by
  cases hr : t.run answer s with
  | mk r s' =>
    cases r with
    | ok a =>
      rw [commit_of_run_ok hr]
      rwa [hr] at hrun
    | error e => rwa [commit_of_run_error hr]

end BlockExchange.Transaction
