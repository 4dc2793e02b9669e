import BlockExchange.Proofs.Database.Represents
import BlockExchange.Proofs.Store.Transaction
import BlockExchange.Store
/-!
Stores with the contents of a memory: `Store.Holds`. A program of uniform questions ends on each of
them as it ends on the memory, and leaves the same contents behind (`Store.Holds.transact_ok`,
`Store.Holds.transact_error`).
-/

namespace BlockExchange

theorem BlockList.checkAgainst_eq_ok_iff (b : BlockList) (r : FileRecord) :
    b.checkAgainst r = .ok () ↔
      (∃ invalid, r.kind = .file b.hash b.size invalid) ∧ b.key = r.key := by
  unfold checkAgainst
  cases hk : r.kind with
  | directory => simp
  | symlink target => simp
  | file hash size invalid =>
    simp only [BlockList.key, FileRecord.key, InFolder.mk.injEq, FileKind.file.injEq]
    split_ifs <;> simp_all [eq_comm]

theorem Store.checkWrite_eq_ok_iff (r : FileRecord) (blocks : Option BlockList) :
    checkWrite r blocks = .ok () ↔ ∀ b ∈ blocks, b.checkAgainst r = .ok () := by
  cases blocks with
  | none => simp [checkWrite]
  | some b => cases hb : b.checkAgainst r <;> simp [checkWrite, hb, Except.mapError]

namespace Memory

variable {m : Memory}

theorem isWellKeyed_fresh (draw : UInt64) : (fresh draw).IsWellKeyed :=
  ⟨Table.isKeyedBy_empty _, Table.isKeyedBy_empty _, Table.isKeyedBy_empty _,
    Table.isKeyedBy_empty _⟩

theorem IsWellKeyed.statsOf_folder (h : m.IsWellKeyed) (folder : String) :
    (m.statsOf folder).folder = folder := by
  rw [statsOf]
  cases hg : m.stats.get? folder with
  | none => rfl
  | some s => exact h.stats.key_of_get? hg

theorem IsWellKeyed.putStats (h : m.IsWellKeyed) {folder : String} {s : FolderStats}
    (hs : s.folder = folder) : IsWellKeyed { m with stats := m.stats.insert folder s } :=
  { h with stats := hs ▸ h.stats.insert s }

theorem IsWellKeyed.putFile (h : m.IsWellKeyed) {r : FileRecord} {blocks : Option BlockList}
    (hb : ∀ b ∈ blocks, b.key = r.key) : (m.putFile r blocks).IsWellKeyed := by
  refine { h with files := h.files.insert r, blocks := ?_ }
  cases blocks with
  | none => exact h.blocks.erase _
  | some b =>
    have hkey : b.key = r.key := hb b rfl
    exact (congrArg (fun k => (m.blocks.insert k b).IsKeyedBy BlockList.key) hkey).mp
      (h.blocks.insert b)

theorem IsWellKeyed.answer (h : m.IsWellKeyed) (q : Query) : (m.answer q).2.IsWellKeyed := by
  cases q with
  | putMarker k => exact { h with markers := h.markers.insert k }
  | putFile r blocks =>
    simp only [Memory.answer]
    cases hc : Store.checkWrite r blocks with
    | error e => exact h
    | ok _ =>
      have hcheck := (Store.checkWrite_eq_ok_iff r blocks).mp hc
      apply h.putFile
      intro b hb
      exact ((b.checkAgainst_eq_ok_iff r).mp (hcheck b hb)).2
  | addStats folder change =>
    simp only [Memory.answer]
    split
    · exact h
    · exact h.putStats (h.statsOf_folder folder)
  | touchStats folder millis => exact h.putStats (h.statsOf_folder folder)
  | nextSequences count => exact { h with }
  | clear draw => exact isWellKeyed_fresh draw
  | _ => exact h

end Memory

/-- A question that memory and a database with the same contents are known to answer alike: what it
writes fits into rows, and a time is moved only where there are statistics. -/
def Query.IsUniform (m : Memory) : Query → Prop
  | .putFile r lists => r.Storable ∧ ∀ b ∈ lists, b.Storable
  | .touchStats folder _ => (m.stats.get? folder).isSome
  | .allMarkers | .children .. | .allStats | .epoch => False
  | _ => True

theorem Database.Tables.Represents.answer {t : Database.Tables} {m : Memory} (h : t.Represents m)
    {q : Query} (hq : q.IsUniform m) :
    (Database.answer q t).1 = (m.answer q).1 ∧
      (Database.answer q t).2.Represents (m.answer q).2 := by
  cases q with
  | marker folder device =>
    simp only [Database.answer, Database.reading, h.marker_eq, Except.mapError]
    exact ⟨rfl, h⟩
  | putMarker k => exact ⟨rfl, h.putMarker k⟩
  | file folder path =>
    simp only [Database.answer, Database.reading, h.file_eq, Except.mapError]
    exact ⟨rfl, h⟩
  | files folder paths =>
    simp only [Database.answer, Database.reading, h.records_eq, Except.mapError]
    exact ⟨rfl, h⟩
  | blocks folder path =>
    simp only [Database.answer, h.blockList_eq]
    exact ⟨rfl, h⟩
  | putFile r blocks =>
    simp only [Database.answer, Memory.answer]
    cases hc : Store.checkWrite r blocks with
    | error e => exact ⟨rfl, h⟩
    | ok _ =>
      have hcheck := (Store.checkWrite_eq_ok_iff r blocks).mp hc
      exact ⟨rfl, h.putFile hq.1 hq.2 fun b hb => ((b.checkAgainst_eq_ok_iff r).mp (hcheck b hb)).2⟩
  | stats folder =>
    simp only [Database.answer, h.statsOf_eq]
    exact ⟨rfl, h⟩
  | addStats folder change =>
    have hf : (((m.stats.get? folder).getD { folder }).shift change).folder = folder :=
      h.keyed.statsOf_folder folder
    simp only [Database.answer, Memory.answer, h.statsOf_eq, Memory.statsOf]
    cases Store.checkStats (((m.stats.get? folder).getD { folder }).shift change) with
    | error e => exact ⟨rfl, h⟩
    | ok _ =>
      have hput := h.putStats (((m.stats.get? folder).getD { folder }).shift change)
      rw [hf] at hput
      exact ⟨rfl, hput⟩
  | touchStats folder millis =>
    obtain ⟨s, hs⟩ := Option.isSome_iff_exists.mp hq
    have hf : s.folder = folder := h.keyed.stats.key_of_get? hs
    have hput := h.putStats { s with lastUpdate := max s.lastUpdate millis }
    simp only [Database.answer, Memory.answer, h.statsOf_eq, Memory.statsOf, hs, Option.getD_some]
    simp only [hf] at hput ⊢
    exact ⟨trivial, hput⟩
  | sequence =>
    simp only [Database.answer, Memory.answer, h.sequence]
    exact ⟨trivial, h⟩
  | nextSequences count =>
    simp only [Database.answer, Memory.answer, h.sequence]
    exact ⟨trivial, { h with keyed := { h.keyed with }, sequence := rfl }⟩
  | clear draw => exact ⟨rfl, Database.represents_fresh draw draw⟩
  | allMarkers | children _ _ | allStats | epoch => exact hq.elim

namespace Transaction

variable {ε ε' α β : Type}

def IsUniform : Transaction ε α → Memory → Prop
  | .done _, _ => True
  | .fail _, _ => True
  | .ask q next, m => q.IsUniform m ∧ (next (m.answer q).1).IsUniform (m.answer q).2

structure Plays (t : Transaction ε α) (m : Memory) (r : Except ε α) (m' : Memory) : Prop where
  uniform : t.IsUniform m
  run : t.run Memory.answer m = (r, m')

variable {t : Transaction ε α} {f : α → Transaction ε β} {m m₁ m' : Memory} {a : α} {e : ε}

theorem isUniform_bind (ht : t.IsUniform m)
    (hf : ∀ a m', t.run Memory.answer m = (.ok a, m') → (f a).IsUniform m') :
    (t >>= f).IsUniform m := by
  change (t.bind f).IsUniform m
  induction t generalizing m with
  | done a => exact hf a m rfl
  | fail e => trivial
  | ask q next ih => exact ⟨ht.1, ih _ ht.2 hf⟩

theorem plays_pure (a : α) (m : Memory) : (pure a : Transaction ε α).Plays m (.ok a) m :=
  ⟨trivial, rfl⟩

theorem plays_fail (e : ε) (m : Memory) : (fail e : Transaction ε α).Plays m (.error e) m :=
  ⟨trivial, rfl⟩

theorem Plays.bind {r : Except ε β} (ht : t.Plays m (.ok a) m₁) (hf : (f a).Plays m₁ r m') :
    (t >>= f).Plays m r m' := by
  constructor
  · apply isUniform_bind ht.uniform
    intro a' m'' h
    rw [ht.run] at h
    cases h
    exact hf.uniform
  · rw [run_bind_ok ht.run, hf.run]

theorem Plays.bind_error (ht : t.Plays m (.error e) m₁) : (t >>= f).Plays m (.error e) m₁ := by
  constructor
  · apply isUniform_bind ht.uniform
    intro a' m'' h
    rw [ht.run] at h
    cases h
  · exact run_bind_error ht.run

theorem Plays.mapError {r : Except ε α} (ht : t.Plays m r m') (f : ε → ε') :
    (t.mapError f).Plays m (r.mapError f) m' := by
  constructor
  · have hu := ht.uniform
    clear ht
    induction t generalizing m with
    | done a => trivial
    | fail e => trivial
    | ask q next ih => exact ⟨hu.1, ih _ hu.2⟩
  · rw [run_mapError, ht.run]

theorem plays_ask {q : Query} (hq : q.IsUniform m) :
    q.ask.Plays m (m.answer q).1 (m.answer q).2 := by
  constructor
  · constructor
    · exact hq
    · cases (m.answer q).1 <;> trivial
  · exact run_ask q m

theorem plays_marker (m : Memory) (folder : String) (device : DeviceId) :
    (Query.marker folder device).ask.Plays m (.ok (m.markers.get? ⟨folder, device⟩)) m :=
  plays_ask trivial

theorem plays_files (m : Memory) (folder : String) (paths : List String) :
    (Query.files folder paths).ask.Plays m (.ok (m.records folder paths)) m :=
  plays_ask trivial

theorem plays_stats (m : Memory) (folder : String) :
    (Query.stats folder).ask.Plays m (.ok (m.stats.get? folder)) m :=
  plays_ask trivial

theorem plays_putMarker (m : Memory) (k : Marker) :
    (Query.putMarker k).ask.Plays m (.ok ())
      { m with markers := m.markers.insert k.key k } :=
  plays_ask trivial

end Transaction

namespace Store

def Holds : Store → Memory → Prop
  | .memory m', m => m' = m ∧ m.IsWellKeyed
  | .database _ tables _, m => tables.Represents m

variable {s : Store} {m : Memory} {ε α : Type} {t : Transaction ε α}

theorem Holds.keyed (h : s.Holds m) : m.IsWellKeyed := by
  cases s with
  | memory m' => exact h.2
  | database versions tables durable => exact Database.Tables.Represents.keyed h

theorem holds_of_create {backend : Backend} {draw : UInt64} (h : create backend draw = .ok s) :
    s.Holds (.fresh draw) := by
  cases backend <;> cases h
  · exact ⟨rfl, Memory.isWellKeyed_fresh draw⟩
  · exact Database.represents_fresh draw draw
  · exact Database.represents_fresh draw draw

theorem Holds.answer (h : s.Holds m) {q : Query} (hq : q.IsUniform m) :
    (s.answer q).1 = (m.answer q).1 ∧ (s.answer q).2.Holds (m.answer q).2 := by
  cases s with
  | memory m' =>
    obtain ⟨rfl, hm⟩ := h
    exact ⟨rfl, rfl, hm.answer q⟩
  | database versions tables durable => exact Database.Tables.Represents.answer h hq

theorem Holds.run (h : s.Holds m) (ht : t.IsUniform m) :
    (t.run Store.answer s).1 = (t.run Memory.answer m).1 ∧
      (t.run Store.answer s).2.Holds (t.run Memory.answer m).2 := by
  induction t generalizing s m with
  | done a => exact ⟨rfl, h⟩
  | fail e => exact ⟨rfl, h⟩
  | ask q next ih =>
    obtain ⟨hreply, hnext⟩ := h.answer ht.1
    simp only [Transaction.run, hreply]
    exact ih _ hnext ht.2

theorem Holds.transact_ok {m' : Memory} {a : α} (h : s.Holds m) (ht : t.Plays m (.ok a) m') :
    (s.transact t).1 = .ok a ∧ (s.transact t).2.Holds m' := by
  obtain ⟨hreply, hnext⟩ := h.run ht.uniform
  rw [ht.run] at hreply hnext
  rw [transact, Transaction.commit_of_run_ok (Prod.ext hreply rfl)]
  exact ⟨rfl, hnext⟩

theorem Holds.transact_error {m' : Memory} {e : ε} (h : s.Holds m)
    (ht : t.Plays m (.error e) m') : s.transact t = (.error e, s) := by
  obtain ⟨hreply, -⟩ := h.run ht.uniform
  rw [ht.run] at hreply
  rw [transact, Transaction.commit_of_run_error (Prod.ext hreply rfl)]

end Store

end BlockExchange
