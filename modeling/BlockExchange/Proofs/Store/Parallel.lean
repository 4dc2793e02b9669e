import BlockExchange.Proofs.Database.Listing
import BlockExchange.Proofs.Store.Reachable
import Mathlib.Data.List.Forall2

namespace BlockExchange

variable {ε α : Type}

/-- Two replies with nothing to choose between them. Epochs are drawn at random, and children that
share a name come in any order. -/
def Query.Alike : (q : Query) → Except StoreError q.Reply → Except StoreError q.Reply → Prop
  | .epoch, r, r' => r.isOk ∧ r'.isOk
  | .children .., r, r' => ∃ records records', r = .ok records ∧ r' = .ok records' ∧
      records.Perm records' ∧ records.map (·.fileName) = records'.map (·.fileName)
  | _, r, r' => r = r'

theorem Query.Alike.error_iff {q : Query} {r r' : Except StoreError q.Reply} (h : q.Alike r r')
    (e : StoreError) : r = .error e ↔ r' = .error e := by
  cases q with
  | epoch =>
    obtain ⟨hr, hr'⟩ := h
    cases r <;> cases r' <;> simp_all [Except.isOk, Except.toBool]
  | children folder parent =>
    obtain ⟨records, records', rfl, rfl, -⟩ := h
    simp
  | _ =>
    cases h
    exact Iff.rfl

namespace Transaction

abbrev Event := (q : Query) × Except StoreError q.Reply

inductive Event.Alike : Event → Event → Prop
  | same {q : Query} {r r' : Except StoreError q.Reply} (h : q.Alike r r') : Alike ⟨q, r⟩ ⟨q, r'⟩
  | clear (draw draw' : UInt64) (r : Except StoreError Unit) :
      Alike ⟨.clear draw, r⟩ ⟨.clear draw', r⟩

inductive Parallel : Transaction ε α → Transaction ε α → Prop
  | done (a : α) : Parallel (.done a) (.done a)
  | fail (e : ε) : Parallel (.fail e) (.fail e)
  | ask {q : Query} {next next' : Except StoreError q.Reply → Transaction ε α}
      (h : ∀ r r', q.Alike r r' → Parallel (next r) (next' r')) :
      Parallel (.ask q next) (.ask q next')
  | clear {draw draw' : UInt64} {next next' : Except StoreError Unit → Transaction ε α}
      (h : ∀ r, Parallel (next r) (next' r)) :
      Parallel (.ask (.clear draw) next) (.ask (.clear draw') next')

def trace {σ : Type} (answer : (q : Query) → σ → Except StoreError q.Reply × σ) :
    Transaction ε α → σ → List Event
  | done _, _ => []
  | fail _, _ => []
  | ask q next, s => ⟨q, (answer q s).1⟩ :: (next (answer q s).1).trace answer (answer q s).2

/-- A list of questions as a program. The error of a question that is marked ends the program; behind
any other error it goes on. -/
def script (last : Except StoreError α) : List (Bool × Query) → Transaction StoreError α
  | [] =>
    match last with
    | .ok a => .done a
    | .error e => .fail e
  | (marked, q) :: rest =>
    .ask q fun
      | .ok _ => script last rest
      | .error e => if marked then .fail e else script last rest

theorem parallel_script (last : Except StoreError α) (questions : List (Bool × Query)) :
    (script last questions).Parallel (script last questions) := by
  induction questions with
  | nil =>
    cases last with
    | ok a => exact .done a
    | error e => exact .fail e
  | cons x rest ih =>
    apply Parallel.ask
    intro r r' h
    cases r with
    | error e =>
      cases (h.error_iff e).mp rfl
      change Parallel (if x.1 then _ else _) (if x.1 then _ else _)
      split_ifs
      · exact .fail e
      · exact ih
    | ok reply =>
      cases r' with
      | error e => cases (h.error_iff e).mpr rfl
      | ok reply' => exact ih

end Transaction

def Query.TouchesKnown (s : Store) : Query → Prop
  | .touchStats folder _ => ∃ stats, (s.answer (.stats folder)).1 = .ok (some stats)
  | _ => True

/-- What a database needs to answer as memory does. -/
def Query.IsProper (s : Store) (q : Query) : Prop :=
  q.Storable ∧ q.TouchesKnown s

theorem Database.Tables.Represents.answer_alike {t : Tables} {m : Memory} (h : t.Represents m)
    {q : Query} (hq : q.IsProper (.memory m)) :
    q.Alike (m.answer q).1 (Database.answer q t).1 ∧
      (Database.answer q t).2.Represents (m.answer q).2 := by
  cases q with
  | allMarkers =>
    simp only [Database.answer, Database.reading, h.allMarkers_eq]
    exact ⟨rfl, h⟩
  | children folder parent =>
    obtain ⟨records, hread, hperm, hnames⟩ := h.children_eq folder parent
    simp only [Database.answer, Database.reading, hread]
    exact ⟨⟨_, _, rfl, rfl, hperm.symm, hnames.symm⟩, h⟩
  | allStats =>
    simp only [Database.answer, h.allStats_eq]
    exact ⟨rfl, h⟩
  | epoch => exact ⟨⟨rfl, rfl⟩, h⟩
  | putFile r lists =>
    obtain ⟨hreply, hnext⟩ := h.answer (q := .putFile r lists) hq.1
    exact ⟨hreply.symm, hnext⟩
  | touchStats folder millis =>
    obtain ⟨stats, hstats⟩ := hq.2
    have hsome : (m.stats.get? folder).isSome := Option.isSome_of_eq_some (Except.ok.inj hstats)
    obtain ⟨hreply, hnext⟩ := h.answer (q := .touchStats folder millis) hsome
    exact ⟨hreply.symm, hnext⟩
  | _ => exact ⟨(h.answer (by trivial)).1.symm, (h.answer (by trivial)).2⟩

namespace Store

def Mirrors : Store → Store → Prop
  | .memory m, .database _ tables _ => tables.Represents m
  | _, _ => False

variable {s s' : Store} {t t' : Transaction ε α}

theorem mirrors_of_create {backend : Backend} {draw draw' : UInt64} (h : create .memory draw = .ok s)
    (hb : backend ≠ .memory) (h' : create backend draw' = .ok s') : s.Mirrors s' := by
  cases h
  cases backend <;> cases h'
  · exact absurd rfl hb
  · exact Database.represents_fresh draw' draw
  · exact Database.represents_fresh draw' draw

theorem Mirrors.exists_represents (h : s.Mirrors s') : ∃ m versions tables durable,
    s = .memory m ∧ s' = .database versions tables durable ∧ tables.Represents m := by
  cases s with
  | database versions tables durable => exact h.elim
  | memory m =>
    cases s' with
    | memory m' => exact h.elim
    | database versions tables durable => exact ⟨m, versions, tables, durable, rfl, rfl, h⟩

theorem Mirrors.answer (h : s.Mirrors s') {q : Query} (hq : q.IsProper s) :
    q.Alike (s.answer q).1 (s'.answer q).1 ∧ (s.answer q).2.Mirrors (s'.answer q).2 := by
  obtain ⟨m, versions, tables, durable, rfl, rfl, hrep⟩ := h.exists_represents
  exact hrep.answer_alike hq

theorem Mirrors.clear (h : s.Mirrors s') (draw draw' : UInt64) :
    (s.answer (.clear draw)).1 = (s'.answer (.clear draw')).1 ∧
      (s.answer (.clear draw)).2.Mirrors (s'.answer (.clear draw')).2 := by
  obtain ⟨m, versions, tables, durable, rfl, rfl, -⟩ := h.exists_represents
  exact ⟨rfl, Database.represents_fresh draw' draw⟩

theorem Mirrors.run (hp : t.Parallel t') (h : s.Mirrors s')
    (ht : t.Asks Query.IsProper s) :
    (t.trace Store.answer s).Forall₂ Transaction.Event.Alike (t'.trace Store.answer s') ∧
      (t.run Store.answer s).1 = (t'.run Store.answer s').1 ∧
      (t.run Store.answer s).2.Mirrors (t'.run Store.answer s').2 := by
  induction hp generalizing s s' with
  | done a => exact ⟨.nil, rfl, h⟩
  | fail e => exact ⟨.nil, rfl, h⟩
  | ask _ ih =>
    obtain ⟨halike, hnext⟩ := h.answer ht.1
    obtain ⟨htrace, hresult, hlast⟩ := ih _ _ halike hnext ht.2
    exact ⟨.cons (.same halike) htrace, hresult, hlast⟩
  | @clear draw draw' next next' _ ih =>
    obtain ⟨hreply, hnext⟩ := h.clear draw draw'
    obtain ⟨htrace, hresult, hlast⟩ := ih _ hnext ht.2
    simp only [Transaction.trace, Transaction.run]
    rw [← hreply]
    exact ⟨.cons (.clear draw draw' _) htrace, hresult, hlast⟩

theorem Mirrors.transact (hp : t.Parallel t') (h : s.Mirrors s')
    (ht : t.Asks Query.IsProper s) :
    (s.transact t).1 = (s'.transact t').1 ∧ (s.transact t).2.Mirrors (s'.transact t').2 := by
  obtain ⟨-, hresult, hlast⟩ := h.run hp ht
  unfold Store.transact Transaction.commit
  rcases hr : t.run Store.answer s with ⟨r, s₁⟩
  rcases hr' : t'.run Store.answer s' with ⟨r', s₁'⟩
  rw [hr, hr'] at hresult hlast
  obtain rfl : r = r' := hresult
  cases r with
  | ok a => exact ⟨rfl, hlast⟩
  | error e => exact ⟨rfl, h⟩

structure Observation (ε α : Type) where
  events : List Transaction.Event
  result : Except ε α

structure Observation.Alike (o o' : Observation ε α) : Prop where
  events : o.events.Forall₂ Transaction.Event.Alike o'.events
  result : o.result = o'.result

def observe : Store → List (Transaction ε α) → List (Observation ε α)
  | _, [] => []
  | s, t :: rest => ⟨t.trace answer s, (s.transact t).1⟩ :: (s.transact t).2.observe rest

def IsAskedProperly : Store → List (Transaction ε α) → Prop
  | _, [] => True
  | s, t :: rest => t.Asks Query.IsProper s ∧ (s.transact t).2.IsAskedProperly rest

theorem Mirrors.observe (h : s.Mirrors s') {bodies : List (Transaction ε α × Transaction ε α)}
    (hp : ∀ b ∈ bodies, b.1.Parallel b.2) (hs : s.IsAskedProperly (bodies.map (·.1))) :
    (s.observe (bodies.map (·.1))).Forall₂ Observation.Alike (s'.observe (bodies.map (·.2))) := by
  induction bodies generalizing s s' with
  | nil => exact .nil
  | cons b rest ih =>
    have hpar := hp b List.mem_cons_self
    obtain ⟨htrace, -, -⟩ := h.run hpar hs.1
    obtain ⟨hresult, hnext⟩ := h.transact hpar hs.1
    apply List.Forall₂.cons
    · exact ⟨htrace, hresult⟩
    · exact ih hnext (fun b' hb' => hp b' (List.mem_cons_of_mem _ hb')) hs.2

/-- New stores of both kinds cannot be told apart: whatever transactions are made on them, every
question has replies that are alike, and every transaction ends alike. -/
theorem observe_alike {backend : Backend} {draw draw' : UInt64} {memory database : Store}
    (hm : create .memory draw = .ok memory) (hb : backend ≠ .memory)
    (hd : create backend draw' = .ok database)
    {bodies : List (Transaction ε α × Transaction ε α)} (hp : ∀ b ∈ bodies, b.1.Parallel b.2)
    (hs : memory.IsAskedProperly (bodies.map (·.1))) :
    (memory.observe (bodies.map (·.1))).Forall₂ Observation.Alike
      (database.observe (bodies.map (·.2))) :=
  (mirrors_of_create hm hb hd).observe hp hs

theorem observe_alike_script :
    let summer : FileRecord := { folder := "photos", path := "summer", kind := .directory }
    let bodies : List (Transaction StoreError Unit) :=
      [.script (.ok ()) [(true, .putFile summer none), (false, .addStats "photos" { dirs := -1 }),
        (true, .addStats "photos" { dirs := 1 }), (true, .touchStats "photos" 12), (true, .epoch)],
       .script (.error (.refused "full")) [(true, .nextSequences 3), (true, .children "photos" "")]]
    ∃ memory database, create .memory 5 = .ok memory ∧ create .database 6 = .ok database ∧
      (memory.observe bodies).Forall₂ Observation.Alike (database.observe bodies) := by
  intro summer bodies
  have hsummer : summer.Storable := Nat.two_pow_pos 64
  have hproper : (Store.memory (.fresh 5)).IsAskedProperly bodies :=
    ⟨⟨⟨⟨hsummer, nofun⟩, trivial⟩, ⟨trivial, trivial⟩, ⟨trivial, trivial⟩, ⟨trivial, _, rfl⟩,
      ⟨trivial, trivial⟩, trivial⟩, ⟨⟨trivial, trivial⟩, ⟨trivial, trivial⟩, trivial⟩, trivial⟩
  have hpar : ∀ b ∈ bodies.map fun body => (body, body), b.1.Parallel b.2 := by
    rintro b hb
    simp only [bodies, List.map_cons, List.map_nil, List.mem_cons, List.not_mem_nil, or_false] at hb
    rcases hb with rfl | rfl <;> exact Transaction.parallel_script _ _
  have hbackend : Backend.database ≠ .memory := nofun
  exact ⟨_, _, rfl, rfl, observe_alike rfl hbackend rfl hpar hproper⟩

end Store

end BlockExchange
