import BlockExchange.Proofs.Database.Opening
import BlockExchange.Proofs.Store.Parallel

namespace BlockExchange.Store

variable {ε α : Type} {s : Store} {t : Transaction ε α}

def IsCurrent : Store → Prop
  | .database versions tables true => (Database.mk versions (some tables.kept)).IsCurrent
  | _ => False

theorem isCurrent_of_openDatabase {d : Database} {draw : UInt64}
    (h : openDatabase d draw true = .ok s) : s.IsCurrent := by
  unfold openDatabase at h
  split at h
  next hopen =>
    cases h
    exact Database.isCurrent_of_openTables hopen
  next => cases h

theorem IsCurrent.reopen_eq (h : s.IsCurrent) (draw : UInt64) : s.reopen draw id = .ok s := by
  match s, h with
  | .database versions tables true, h =>
    simp only [reopen, close, openDatabase, id, Database.openTables_of_isCurrent h]

theorem IsCurrent.answer (h : s.IsCurrent) (q : Query) : (s.answer q).2.IsCurrent := by
  match s, h with
  | .database versions tables true, h => exact h

theorem IsCurrent.run (h : s.IsCurrent) (t : Transaction ε α) :
    (t.run Store.answer s).2.IsCurrent := by
  induction t generalizing s with
  | done a => exact h
  | fail e => exact h
  | ask q next ih => exact ih _ (h.answer q)

theorem IsCurrent.transact (h : s.IsCurrent) (t : Transaction ε α) : (s.transact t).2.IsCurrent :=
  Transaction.commit_snd (p := IsCurrent) h (h.run t)

inductive Visit (ε α : Type) where
  | transaction (t : Transaction ε α)
  | reopening (draw : UInt64)

def Visit.transaction? : Visit ε α → Option (Transaction ε α)
  | transaction t => some t
  | reopening _ => none

def visited : Store → List (Visit ε α) → Except StoreError (List (Observation ε α) × Store)
  | s, [] => .ok ([], s)
  | s, .transaction t :: rest => do
    let (seen, last) ← (s.transact t).2.visited rest
    return (⟨t.trace answer s, (s.transact t).1⟩ :: seen, last)
  | s, .reopening draw :: rest => do
    let s ← s.reopen draw id
    s.visited rest

def afterAll (s : Store) (bodies : List (Transaction ε α)) : Store :=
  bodies.foldl (fun s t => (s.transact t).2) s

theorem IsCurrent.visited_eq (h : s.IsCurrent) (visits : List (Visit ε α)) :
    s.visited visits =
      .ok (s.observe (visits.filterMap Visit.transaction?),
        s.afterAll (visits.filterMap Visit.transaction?)) := by
  induction visits generalizing s with
  | nil => rfl
  | cons visit rest ih =>
    cases visit with
    | transaction t =>
      rw [visited, ih (h.transact t)]
      rfl
    | reopening draw =>
      rw [visited, h.reopen_eq draw]
      exact ih h

/-- Opening a store again is invisible. Whatever is kept in the file that it is first opened on, and
however often it is closed and opened again between transactions, each opening succeeds, every question
of every transaction has the reply that it has without the openings, every transaction ends as it does
without them, and the same store is left behind. The draws of the openings are free; those of `clear` are
part of the transactions. -/
theorem visited_eq_observe {d : Database} {draw : UInt64} (h : openDatabase d draw true = .ok s)
    (visits : List (Visit ε α)) :
    s.visited visits =
      .ok (s.observe (visits.filterMap Visit.transaction?),
        s.afterAll (visits.filterMap Visit.transaction?)) :=
  (isCurrent_of_openDatabase h).visited_eq visits

theorem visited_eq_observe_cleared :
    let summer : FileRecord := { folder := "photos", path := "summer", kind := .directory }
    let write : Transaction StoreError Unit :=
      .script (.ok ()) [(true, .putFile summer none), (true, .nextSequences 3)]
    let fail : Transaction StoreError Unit :=
      .script (.error (.refused "full")) [(true, .addStats "photos" { dirs := 1 }), (true, .epoch)]
    let clear : Transaction StoreError Unit := .script (.ok ()) [(true, .clear 6)]
    let read : Transaction StoreError Unit :=
      .script (.ok ()) [(true, .epoch), (true, .sequence), (true, .file "photos" "summer")]
    ∃ s, openDatabase {} 5 true = .ok s ∧
      s.visited [.reopening 7, .transaction write, .transaction fail, .reopening 8, .reopening 9,
          .transaction read, .transaction clear, .reopening 10, .transaction read] =
        .ok (s.observe [write, fail, read, clear, read], s.afterAll [write, fail, read, clear, read]) := by
  intro summer write fail clear read
  have hopen : openDatabase {} 5 true = .ok (.database [1] (.fresh 5) true) := rfl
  exact ⟨_, hopen, visited_eq_observe hopen _⟩

end BlockExchange.Store
