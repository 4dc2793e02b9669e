import BlockExchange.Proofs.Database.Listing
import BlockExchange.Proofs.Index.Run
import BlockExchange.Proofs.Path
import BlockExchange.Proofs.Store.Reading
import Mathlib

namespace BlockExchange

namespace Memory

variable {m : Memory}

theorem mem_children_iff (h : m.IsWellKeyed) {folder parent : String} {r : FileRecord} :
    r ∈ m.children folder parent ↔ m.files.get? ⟨folder, r.path⟩ = some r ∧ r.deleted = false ∧
      r.path ≠ Path.root ∧ r.parent = parent := by
  rw [children, List.mem_mergeSort, List.mem_filter, h.files.mem_values]
  simp only [isChild, Path.isRoot, FileRecord.key, Bool.and_eq_true, Bool.not_eq_true', beq_iff_eq,
    beq_eq_false_iff_ne]
  constructor
  · rintro ⟨hget, ⟨⟨rfl, hparent⟩, hlive⟩, hroot⟩
    exact ⟨hget, hlive, hroot, hparent⟩
  · rintro ⟨hget, hlive, hroot, hparent⟩
    obtain rfl : r.folder = folder := congrArg InFolder.folder (h.files.key_of_get? hget)
    exact ⟨hget, ⟨⟨rfl, hparent⟩, hlive⟩, hroot⟩

theorem nodup_children (h : m.IsWellKeyed) (folder parent : String) :
    (m.children folder parent).Nodup :=
  (List.mergeSort_perm _ _).nodup_iff.mpr (h.files.nodup_values.filter _)

end Memory

theorem Store.Holds.exists_children {s : Store} {m : Memory} (h : s.Holds m)
    (folder parent : String) :
    ∃ records, (s.answer (.children folder parent)).1 = .ok records ∧
      records.Perm (m.children folder parent) ∧
      records.Pairwise fun a b => (compare a.fileName b.fileName).isLE := by
  have hsorted := Table.pairwise_mergeSort FileRecord.fileName
    (m.files.values.filter (Memory.isChild folder parent))
  cases s with
  | memory m' =>
    obtain ⟨rfl, -⟩ := h
    exact ⟨_, rfl, .refl _, hsorted⟩
  | database versions tables durable =>
    obtain ⟨records, hread, hperm, hnames⟩ :=
      Database.Tables.Represents.children_eq h folder parent
    refine ⟨records, congrArg (Except.mapError StoreError.database) hread, hperm, ?_⟩
    have hmap : (records.map (·.fileName)).Pairwise fun a b => (compare a b).isLE := by
      rw [hnames]
      exact List.pairwise_map.mpr hsorted
    exact List.pairwise_map.mp hmap

namespace Index

theorem ask_fst (i : Index) (q : Query) :
    (i.ask q).1 = (i.store.answer q).1.mapError ExchangeError.store := by
  have hcommit : (i.ask q).1 = ((q.ask.mapError ExchangeError.store).run Store.answer i.store).1 :=
    Transaction.commit_fst _ i.store
  rw [hcommit, Transaction.run_mapError, Transaction.run_ask]

theorem pairwise_fileName_lt_iff {records : List FileRecord} {parent : String}
    (hnodup : records.Nodup) (hparent : ∀ r ∈ records, r.parent = parent)
    (hpath : ∀ a ∈ records, ∀ b ∈ records, a.path = b.path → a = b)
    (hsorted : records.Pairwise fun a b => (compare a.fileName b.fileName).isLE) :
    (records.Pairwise fun a b => compare a.fileName b.fileName = .lt) ↔
      ∀ a ∈ records, ∀ b ∈ records, b.path ≠ Path.below Path.root a.path := by
  constructor
  · intro hstrict a ha b hb hslash
    have hname : b.fileName = a.fileName := by
      rw [FileRecord.fileName, hslash, Path.fileName_below_root]
      rfl
    have hdistinct : (records.map (·.fileName)).Nodup :=
      List.pairwise_map.mpr (hstrict.imp fun hlt heq => by
        simp [heq, Std.ReflCmp.compare_self] at hlt)
    obtain rfl : b = a := List.inj_on_of_nodup_map hdistinct hb ha hname
    exact Path.ne_below_root _ hslash
  · intro hslash
    apply (hsorted.and hnodup).imp_of_mem
    rintro a b ha hb ⟨hle, hne⟩
    apply Ordering.isLE_iff_eq_lt_or_eq_eq.mp hle |>.resolve_right
    intro heq
    have hname : a.fileName = b.fileName := Std.LawfulEqOrd.eq_of_compare heq
    have hsame : a.parent = b.parent := (hparent a ha).trans (hparent b hb).symm
    rcases Path.parent_eq_and_fileName_eq_iff.mp ⟨hsame, hname⟩ with h | ⟨-, h⟩ | ⟨-, h⟩
    · exact hne (hpath a ha b hb h)
    · exact hslash b hb a ha h
    · exact hslash a ha b hb h

/-- After any run, the listing of a directory has each record below it that is stored and not deleted
once, and the names are in order. They hold no separators. Which of them lead back to their paths, which
are empty, and when two of them are the same, is decided by separators at the ends of the paths. -/
theorem listing_complete {backend : Backend} {draw : UInt64} {store : Store}
    (hs : Store.create backend draw = .ok store) {operations : List Operation}
    (hb : ∀ operation ∈ operations, operation.Bounded) (folder parent : String) :
    let i := run { store } operations
    ∃ records, (i.ask (.children folder parent)).1 = .ok records ∧ records.Nodup ∧
      (∀ path r, r ∈ records ∧ r.path = path ↔ i.store.Keeps folder path r ∧ r.deleted = false ∧
        path ≠ Path.root ∧ Path.parent path = parent) ∧
      (records.Pairwise fun a b => (compare a.fileName b.fileName).isLE) ∧
      ((records.Pairwise fun a b => compare a.fileName b.fileName = .lt) ↔
        ∀ a ∈ records, ∀ b ∈ records, b.path ≠ Path.below Path.root a.path) ∧
      ∀ r ∈ records, Path.separator ∉ r.fileName.toList ∧
        (Path.join parent r.fileName = r.path ↔ r.path ≠ Path.below Path.root r.fileName) ∧
        (r.fileName = "" ↔ r.path = Path.below parent "") := by
  intro i
  obtain ⟨m, hholds, -⟩ : ∃ m : Memory, i.store.Holds m ∧ m.Balanced := exists_holds_run hs hb
  clear_value i
  have hkeyed := hholds.keyed
  obtain ⟨records, hread, hperm, hsorted⟩ := hholds.exists_children folder parent
  have hmem : ∀ r, r ∈ records ↔ i.store.Keeps folder r.path r ∧ r.deleted = false ∧
      r.path ≠ Path.root ∧ r.parent = parent := fun r => by
    rw [hperm.mem_iff, Memory.mem_children_iff hkeyed, hholds.keeps_iff, Option.mem_def]
  have hparent : ∀ r ∈ records, r.parent = parent := fun r hr => ((hmem r).mp hr).2.2.2
  have hnodup : records.Nodup := hperm.nodup_iff.mpr (Memory.nodup_children hkeyed folder parent)
  have hpath : ∀ a ∈ records, ∀ b ∈ records, a.path = b.path → a = b := by
    intro a ha b hb heq
    have hkeep := ((hmem a).mp ha).1
    rw [heq, Store.Keeps, ((hmem b).mp hb).1] at hkeep
    exact (Option.some.inj (Except.ok.inj hkeep)).symm
  refine ⟨records, ?_, hnodup, ?_, hsorted, pairwise_fileName_lt_iff hnodup hparent hpath hsorted, ?_⟩
  · rw [ask_fst, hread]
    rfl
  · intro path r
    constructor
    · rintro ⟨hr, rfl⟩
      exact (hmem r).mp hr
    · rintro ⟨hkeep, hlive, hroot, hbelow⟩
      have hkey := hkeyed.files.key_of_get? (hholds.keeps_iff.mp hkeep)
      obtain rfl : r.path = path := congrArg InFolder.item hkey
      exact ⟨(hmem r).mpr ⟨hkeep, hlive, hroot, hbelow⟩, rfl⟩
  · intro r hr
    obtain ⟨-, -, hroot, rfl⟩ := (hmem r).mp hr
    refine ⟨Path.separator_notMem_fileName r.path, Path.join_parent_fileName_eq_iff r.path, ?_⟩
    exact (Path.fileName_eq_empty_iff r.path).trans (or_iff_right hroot)

theorem listing_complete_beach :
    let operations : List Operation :=
      [.announcement "photos" .zero 7 4,
       .message "photos" .zero [.directory "/summer" 10 1, .directory "summer" 11 2,
         .directory "summer/winter" 12 3, .directory "summer/beach" 13 4]]
    let i := run { store := .memory (.fresh 5) } operations
    ∃ records, (i.ask (.children "photos" "summer")).1 = .ok records ∧
      records.map (·.path) = ["summer/beach", "summer/winter"] ∧
      (records.Pairwise fun a b => compare a.fileName b.fileName = .lt) ∧
      ∀ r ∈ records, Path.join "summer" r.fileName = r.path ∧ r.fileName ≠ "" := by
  intro operations i
  have hs : Store.create .memory 5 = .ok (.memory (.fresh 5)) := rfl
  have hb : ∀ operation ∈ operations, operation.Bounded := by decide
  obtain ⟨records, hread, -, -, -, hstrict, hnames⟩ := listing_complete hs hb "photos" "summer"
  have hlist : (i.ask (.children "photos" "summer")).1.map (·.map (·.path)) =
      .ok ["summer/beach", "summer/winter"] := by
    unfold i operations
    cbv
  have hpaths : records.map (·.path) = ["summer/beach", "summer/winter"] := by
    rw [hread] at hlist
    exact Except.ok.inj hlist
  have hmem : ∀ r ∈ records, r.path ∈ ["summer/beach", "summer/winter"] := fun r hr =>
    hpaths ▸ List.mem_map_of_mem hr
  refine ⟨records, hread, hpaths, hstrict.mpr ?_, ?_⟩
  · intro a ha b hb
    have hslash : ∀ p ∈ ["summer/beach", "summer/winter"], ∀ q ∈ ["summer/beach", "summer/winter"],
        q ≠ Path.below Path.root p := by decide
    exact hslash _ (hmem a ha) _ (hmem b hb)
  · intro r hr
    obtain ⟨-, hjoin, hempty⟩ := hnames r hr
    have hlong : ∀ p ∈ ["summer/beach", "summer/winter"],
        p ≠ Path.below Path.root (Path.fileName p) ∧ p ≠ Path.below "summer" "" := by decide
    exact ⟨hjoin.mpr (hlong _ (hmem r hr)).1, mt hempty.mp (hlong _ (hmem r hr)).2⟩

theorem listing_of_separators :
    let i := run { store := .memory (.fresh 5) }
      [.announcement "photos" .zero 7 3,
       .message "photos" .zero
         [.directory "summer" 10 1, .directory "/summer" 11 2, .directory "summer/" 12 3]]
    ∃ a b c : FileRecord, (i.ask (.children "photos" "")).1 = .ok [a, b] ∧
      a.fileName = b.fileName ∧ Path.join "" a.fileName ≠ a.path ∧
      (i.ask (.children "photos" "summer")).1 = .ok [c] ∧ c.fileName = "" := by
  intro i
  let made (path : String) (seconds sequence : Int) : FileRecord :=
    { folder := "photos", path, lastModified := ⟨seconds, 0⟩, versions := [⟨1, 1⟩], sequence,
      kind := .directory }
  refine ⟨made "/summer" 11 2, made "summer" 10 1, made "summer/" 12 3, ?_, by decide, by decide, ?_,
    by decide⟩
  · unfold i made
    cbv
  · unfold i made
    cbv

end Index

end BlockExchange
