import BlockExchange.Proofs.Database.Opening
import BlockExchange.Proofs.Store.Agreement

namespace BlockExchange

def Query.Storable : Query → Prop
  | .putFile r lists => r.Storable ∧ ∀ b ∈ lists, b.Storable
  | _ => True

def Transaction.Asks {ε α : Type} (p : Store → Query → Prop) : Transaction ε α → Store → Prop
  | done _, _ => True
  | fail _, _ => True
  | ask q next, s => p s q ∧ (next (s.answer q).1).Asks p (s.answer q).2

namespace Transaction

variable {ε ε' α β : Type} {p : Store → Query → Prop} {s : Store}

theorem Asks.bind {t : Transaction ε α} (h : t.Asks p s) {f : α → Transaction ε β}
    (hf : ∀ a s', t.run Store.answer s = (.ok a, s') → (f a).Asks p s') : (t >>= f).Asks p s := by
  change (t.bind f).Asks p s
  induction t generalizing s with
  | done a => exact hf a s rfl
  | fail e => trivial
  | ask q next ih => exact ⟨h.1, ih _ h.2 hf⟩

theorem Asks.mapError {t : Transaction ε α} (h : t.Asks p s) (f : ε → ε') :
    (t.mapError f).Asks p s := by
  induction t generalizing s with
  | done a => trivial
  | fail e => trivial
  | ask q next ih => exact ⟨h.1, ih _ h.2⟩

theorem asks_ask {q : Query} (h : p s q) : q.ask.Asks p s := by
  refine ⟨h, ?_⟩
  cases (s.answer q).1 <;> trivial

end Transaction

theorem Database.Tables.Represents.exists_answer {t : Database.Tables} {m : Memory}
    (h : t.Represents m) {q : Query} (hq : q.Storable) :
    ∃ m', (Database.answer q t).2.Represents m' := by
  cases q with
  | allMarkers => exact ⟨m, h⟩
  | children folder parent => exact ⟨m, h⟩
  | allStats => exact ⟨m, h⟩
  | epoch => exact ⟨m, h⟩
  | touchStats folder millis =>
    simp only [Database.answer]
    split
    · exact ⟨_, h.putStats _⟩
    · exact ⟨_, h.putStats _⟩
  | putFile r lists => exact ⟨_, (h.answer (q := .putFile r lists) hq).2⟩
  | _ => exact ⟨_, (h.answer (by trivial)).2⟩

namespace Store

inductive Reachable : Store → Prop
  | created {backend : Backend} {draw : UInt64} {s : Store} (h : create backend draw = .ok s) :
      Reachable s
  | transacted {ε α : Type} {s : Store} (hs : Reachable s) {t : Transaction ε α}
      (ht : t.Asks (fun _ q => q.Storable) s) : Reachable (s.transact t).2
  | reopened {s s' : Store} {draw : UInt64} (hs : Reachable s) (h : s.reopen draw id = .ok s') :
      Reachable s'

variable {s s' : Store} {m : Memory} {ε α : Type} {t : Transaction ε α}

theorem Holds.exists_answer (h : s.Holds m) {q : Query} (hq : q.Storable) :
    ∃ m', (s.answer q).2.Holds m' := by
  cases s with
  | memory m' =>
    obtain ⟨rfl, hm⟩ := h
    exact ⟨_, rfl, hm.answer q⟩
  | database versions tables durable => exact Database.Tables.Represents.exists_answer h hq

theorem Holds.exists_run (h : s.Holds m) (ht : t.Asks (fun _ q => q.Storable) s) :
    ∃ m', (t.run Store.answer s).2.Holds m' := by
  induction t generalizing s m with
  | done a => exact ⟨m, h⟩
  | fail e => exact ⟨m, h⟩
  | ask q next ih =>
    obtain ⟨m', h'⟩ := h.exists_answer ht.1
    exact ih _ h' ht.2

theorem Holds.exists_transact (h : s.Holds m) (ht : t.Asks (fun _ q => q.Storable) s) :
    ∃ m', (s.transact t).2.Holds m' :=
  Transaction.commit_snd (p := fun s' : Store => ∃ m', s'.Holds m') ⟨m, h⟩ (h.exists_run ht)

theorem eq_of_reopen {versions : List Int} {tables : Database.Tables} {draw : UInt64}
    (h : (database versions tables true).reopen draw id = .ok s') :
    s' = database versions tables true := by
  simp only [reopen, close, openDatabase, id] at h
  split at h
  next hopen =>
    obtain ⟨rfl, rfl⟩ := Database.openTables_kept hopen
    cases h
    rfl
  next => cases h

theorem Holds.exists_reopen {draw : UInt64} (h : s.Holds m) (hr : s.reopen draw id = .ok s') :
    ∃ m', s'.Holds m' := by
  cases s with
  | memory m =>
    have hc : create .memory draw = .ok s' := hr
    exact ⟨_, holds_of_create hc⟩
  | database versions tables durable =>
    cases durable with
    | false =>
      have hc : create .database draw = .ok s' := hr
      exact ⟨_, holds_of_create hc⟩
    | true =>
      obtain rfl := eq_of_reopen hr
      exact ⟨m, h⟩

theorem Reachable.exists_holds (hs : s.Reachable) : ∃ m, s.Holds m := by
  induction hs with
  | created h => exact ⟨_, holds_of_create h⟩
  | transacted _ ht ih =>
    obtain ⟨m, h⟩ := ih
    exact h.exists_transact ht
  | reopened _ hr ih =>
    obtain ⟨m, h⟩ := ih
    exact h.exists_reopen hr

def knowing (marker : Marker) : Store :=
  ((memory (.fresh 5)).transact (Query.putMarker marker).ask).2

theorem reachable_knowing (marker : Marker) : (knowing marker).Reachable := by
  have hcreate : create .memory 5 = .ok (memory (.fresh 5)) := rfl
  have hput : (Query.putMarker marker).ask.Asks (fun _ q => q.Storable) (memory (.fresh 5)) :=
    ⟨trivial, trivial⟩
  exact (Reachable.created hcreate).transacted hput

end Store

end BlockExchange
