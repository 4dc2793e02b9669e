import BlockExchange.Proofs.Store.Agreement

namespace BlockExchange

namespace Memory

def recordsOf (m : Memory) (folder : String) : List FileRecord :=
  m.files.values.filter fun r => r.folder = folder

end Memory

def Query.IsReading : Query → Prop
  | marker .. | allMarkers | file .. | files .. | blocks .. | children .. | stats _ | allStats
  | epoch | sequence => True
  | _ => False

def Transaction.IsReading {ε α : Type} : Transaction ε α → Prop
  | done _ | fail _ => True
  | ask q next => q.IsReading ∧ ∀ r, (next r).IsReading

namespace Transaction

variable {ε ε' α β : Type}

theorem IsReading.bind {t : Transaction ε α} (h : t.IsReading) {f : α → Transaction ε β}
    (hf : ∀ a, (f a).IsReading) : (t >>= f).IsReading := by
  change (t.bind f).IsReading
  induction t with
  | done a => exact hf a
  | fail e => trivial
  | ask q next ih => exact ⟨h.1, fun r => ih r (h.2 r)⟩

theorem IsReading.mapError {t : Transaction ε α} (h : t.IsReading) (f : ε → ε') :
    (t.mapError f).IsReading := by
  induction t with
  | done a => trivial
  | fail e => trivial
  | ask q next ih => exact ⟨h.1, fun r => ih r (h.2 r)⟩

theorem isReading_ask (q : Query) (h : q.IsReading) : q.ask.IsReading := by
  refine ⟨h, ?_⟩
  rintro (e | r) <;> trivial

end Transaction

namespace Store

theorem answer_of_isReading {q : Query} (h : q.IsReading) (s : Store) : (s.answer q).2 = s := by
  cases s <;> cases q <;> first | rfl | cases h

theorem run_of_isReading {ε α : Type} {t : Transaction ε α} (h : t.IsReading) (s : Store) :
    (t.run answer s).2 = s := by
  induction t generalizing s with
  | done a => rfl
  | fail e => rfl
  | ask q next ih => exact (ih _ (h.2 _) _).trans (answer_of_isReading h.1 s)

theorem transact_of_isReading {ε α : Type} {t : Transaction ε α} (h : t.IsReading) (s : Store) :
    (s.transact t).2 = s :=
  Transaction.commit_snd (p := (· = s)) rfl (run_of_isReading h s)

def records (folder : String) : Store → Except StoreError (List FileRecord)
  | .memory m => .ok (m.recordsOf folder)
  | .database _ tables _ =>
    ((tables.files.filter fun row => row.folder = folder).mapM Database.FileRow.toRecord).mapError
      .database

def Keeps (s : Store) (folder path : String) (r : FileRecord) : Prop :=
  (s.answer (.file folder path)).1 = .ok (some r)

variable {s : Store} {m : Memory}

theorem Holds.marker_eq (h : s.Holds m) (folder : String) (device : DeviceId) :
    (s.answer (.marker folder device)).1 = .ok (m.markers.get? ⟨folder, device⟩) :=
  (h.answer (q := .marker folder device) trivial).1

theorem Holds.file_eq (h : s.Holds m) (folder path : String) :
    (s.answer (.file folder path)).1 = .ok (m.files.get? ⟨folder, path⟩) :=
  (h.answer (q := .file folder path) trivial).1

theorem Holds.keeps_iff (h : s.Holds m) {folder path : String} {r : FileRecord} :
    s.Keeps folder path r ↔ r ∈ m.files.get? ⟨folder, path⟩ := by
  rw [Keeps, h.file_eq, Except.ok.injEq, Option.mem_def]

theorem Holds.sequence_eq (h : s.Holds m) : (s.answer .sequence).1 = .ok m.sequence :=
  (h.answer (q := .sequence) trivial).1

theorem Holds.files_eq (h : s.Holds m) (folder : String) (paths : List String) :
    (s.answer (.files folder paths)).1 = .ok (m.records folder paths) :=
  (h.answer (q := .files folder paths) trivial).1

theorem Holds.search_run (h : s.Holds m) (folder : String) (paths : List String) :
    (Query.files folder paths).ask.run Store.answer s = (.ok (m.records folder paths), s) := by
  rw [Transaction.run_ask]
  exact Prod.ext (h.files_eq folder paths) (answer_of_isReading (q := .files folder paths) trivial s)

theorem Holds.blocks_eq (h : s.Holds m) (folder path : String) :
    (s.answer (.blocks folder path)).1 = .ok (m.blocks.get? ⟨folder, path⟩) :=
  (h.answer (q := .blocks folder path) trivial).1

theorem Holds.stats_eq (h : s.Holds m) (folder : String) :
    (s.answer (.stats folder)).1 = .ok (m.stats.get? folder) :=
  (h.answer (q := .stats folder) trivial).1

theorem Holds.records_eq (h : s.Holds m) (folder : String) :
    ∃ records, s.records folder = .ok records ∧ records.Perm (m.recordsOf folder) := by
  cases s with
  | memory m' =>
    obtain ⟨rfl, -⟩ := h
    exact ⟨_, rfl, .refl _⟩
  | database versions tables durable =>
    have ht : tables.Represents m := h
    obtain ⟨values, hrows, hperm⟩ := ht.files
    refine ⟨values.filter fun r => r.folder = folder, ?_, hperm.filter _⟩
    have hread : ((values.filter fun r => r.folder = folder).map Database.FileRow.ofRecord).mapM
        Database.FileRow.toRecord = .ok (values.filter fun r => r.folder = folder) :=
      Database.mapM_map_eq_ok fun r hr => Database.FileRow.toRecord_ofRecord
        (ht.filesFit r (hperm.mem_iff.mp (List.mem_filter.mp hr).1))
    rw [records, hrows, List.filter_map]
    exact congrArg (Except.mapError StoreError.database) hread

end Store

end BlockExchange
