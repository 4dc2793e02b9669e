import BlockExchange.Proofs.Index.Receive
import BlockExchange.Proofs.Store.Reading

namespace BlockExchange

open Index

namespace FileRecord

def isLiveFile (r : FileRecord) : Bool := !r.deleted && r.kind.isFile

def isLiveDirectory (r : FileRecord) : Bool := !r.deleted && r.kind.isDirectory

def liveSize (records : List FileRecord) : Int :=
  ((records.filter isLiveFile).map fun r => r.kind.size?.getD 0).sum

theorem liveSize_cons (r : FileRecord) (records : List FileRecord) :
    liveSize (r :: records) = (Weight.ofRecord r).size + liveSize records := by
  unfold liveSize isLiveFile Weight.ofRecord
  cases hd : r.deleted <;> cases hk : r.kind <;> simp [hd, hk, FileKind.isFile, FileKind.size?]

end FileRecord

namespace Weight

open FileRecord

def total (records : List FileRecord) : Weight := (records.map ofRecord).sum

theorem total_cons (r : FileRecord) (records : List FileRecord) :
    total (r :: records) = ofRecord r + total records := by
  rw [total, List.map_cons, List.sum_cons, total]

theorem total_perm {records records' : List FileRecord} (h : records.Perm records') :
    total records = total records' :=
  (h.map ofRecord).sum_eq

theorem total_files (records : List FileRecord) :
    (total records).files = (records.filter isLiveFile).length := by
  induction records with
  | nil => rfl
  | cons r rest ih =>
    rw [total_cons, add_files, ih]
    unfold ofRecord
    cases hd : r.deleted <;> cases hk : r.kind <;>
      simp [isLiveFile, hd, hk, FileKind.isFile, Int.add_comm]

theorem total_dirs (records : List FileRecord) :
    (total records).dirs = (records.filter isLiveDirectory).length := by
  induction records with
  | nil => rfl
  | cons r rest ih =>
    rw [total_cons, add_dirs, ih]
    unfold ofRecord
    cases hd : r.deleted <;> cases hk : r.kind <;>
      simp [isLiveDirectory, hd, hk, FileKind.isDirectory, Int.add_comm]

theorem total_size (records : List FileRecord) : (total records).size = liveSize records := by
  induction records with
  | nil => rfl
  | cons r rest ih => rw [total_cons, add_size, ih, liveSize_cons]

theorem total_filter (p : FileRecord → Bool) (records : List FileRecord) :
    total (records.filter p) = (records.map fun r => if p r then ofRecord r else 0).sum := by
  induction records with
  | nil => rfl
  | cons r rest ih =>
    rw [List.map_cons, List.sum_cons, ← ih, List.filter_cons]
    split_ifs
    · exact total_cons _ _
    · exact (zero_add _).symm

end Weight

def FolderStats.weight (s : FolderStats) : Weight := ⟨s.files, s.dirs, s.size⟩

theorem FolderStats.counts_of_recount {s : FolderStats} {records : List FileRecord}
    (h : s.weight = Weight.total records) :
    s.files = (records.filter FileRecord.isLiveFile).length ∧
      s.dirs = (records.filter FileRecord.isLiveDirectory).length ∧
      s.size = FileRecord.liveSize records := by
  rw [← Weight.total_files, ← Weight.total_dirs, ← Weight.total_size, ← h]
  exact ⟨rfl, rfl, rfl⟩

theorem FolderStats.isNonNegative_of_recount {s : FolderStats} {records : List FileRecord}
    (h : s.weight = Weight.total records) :
    s.isNonNegative = true ↔ 0 ≤ FileRecord.liveSize records := by
  obtain ⟨hfiles, hdirs, hsize⟩ := counts_of_recount h
  unfold isNonNegative
  rw [hfiles, hdirs, hsize]
  simp

namespace Memory

/-- Each folder's statistics are the recount of its records, and none is negative. -/
structure Balanced (m : Memory) : Prop where
  recount : ∀ folder, (m.statsOf folder).weight = Weight.total (m.recordsOf folder)
  nonneg : ∀ folder, (m.statsOf folder).isNonNegative = true

variable {m : Memory} {folder : String} {files : List FileEntry}

theorem balanced_fresh (draw : UInt64) : (fresh draw).Balanced where
  recount _ := rfl
  nonneg _ := rfl

theorem total_recordsOf_insert (hk : m.files.IsKeyedBy FileRecord.key) (r : FileRecord)
    (folder : String) :
    Weight.total (recordsOf { m with files := m.files.insert r.key r } folder) =
      Weight.total (m.recordsOf folder) + if r.folder = folder then
        Weight.ofRecord r - Weight.ofRecord? (m.files.get? r.key) else 0 := by
  have hsum := Table.sum_values_insert
    (fun r : FileRecord => if r.folder = folder then Weight.ofRecord r else 0) m.files r.key r
  have hold : (m.files.get? r.key).elim 0
      (fun r : FileRecord => if r.folder = folder then Weight.ofRecord r else 0) =
      if r.folder = folder then Weight.ofRecord? (m.files.get? r.key) else 0 := by
    cases hg : m.files.get? r.key with
    | none => simp [Weight.ofRecord?_eq_elim]
    | some old =>
      have hfolder : old.folder = r.folder := congrArg InFolder.folder (hk.key_of_get? hg)
      simp [Weight.ofRecord?_eq_elim, hfolder]
  rw [hold] at hsum
  simp only [recordsOf, Weight.total_filter, decide_eq_true_eq]
  rw [hsum]
  split_ifs
  · rw [sub_add_eq_add_sub, add_sub_assoc]
  · rw [sub_zero]

theorem total_recordsOf_putAll (hk : m.files.IsKeyedBy FileRecord.key)
    {pairs : List (FileRecord × Option BlockList)} (hdist : (pairs.map (·.1.key)).Nodup)
    (hfolder : ∀ p ∈ pairs, p.1.folder = folder) (other : String) :
    Weight.total ((m.putAll pairs).recordsOf other) =
      Weight.total (m.recordsOf other) + if folder = other then
        (pairs.map fun p =>
          Weight.ofRecord p.1 - Weight.ofRecord? (m.files.get? p.1.key)).sum else 0 := by
  induction pairs generalizing m with
  | nil =>
    have hzero : (if folder = other then (0 : Weight) else 0) = 0 := by split_ifs <;> rfl
    rw [List.map_nil, List.sum_nil, hzero, add_zero]
    rfl
  | cons p rest ih =>
    obtain ⟨hp, hrest⟩ := List.nodup_cons.mp hdist
    have hput : (m.putFile p.1 p.2).files.IsKeyedBy FileRecord.key := hk.insert p.1
    -- The rest replaces what was there before the batch: none of it has the key of `p`.
    have hone := total_recordsOf_insert hk p.1 other
    have hsnap : (rest.map fun q =>
        Weight.ofRecord q.1 - Weight.ofRecord? ((m.putFile p.1 p.2).files.get? q.1.key)) =
        rest.map fun q => Weight.ofRecord q.1 - Weight.ofRecord? (m.files.get? q.1.key) := by
      apply List.map_congr_left
      intro q hq
      have hne : q.1.key ≠ p.1.key := fun he => hp (List.mem_map.mpr ⟨q, hq, he⟩)
      rw [get?_files_putFile, if_neg hne]
    have hall := ih hput hrest fun q hq => hfolder q (List.mem_cons_of_mem _ hq)
    rw [hsnap] at hall
    have hstep : (m.putAll (p :: rest)) = (m.putFile p.1 p.2).putAll rest := rfl
    have hfirst : (m.putFile p.1 p.2).recordsOf other =
        recordsOf { m with files := m.files.insert p.1.key p.1 } other := rfl
    rw [hstep, hall, hfirst, hone, hfolder p List.mem_cons_self, List.map_cons, List.sum_cons]
    split_ifs
    · rw [add_assoc]
    · rw [add_zero, add_zero]

theorem change_delta (m : Memory) (folder : String) (files : List FileEntry) :
    (m.delta folder files).change = ((m.brought folder files).map fun p =>
      Weight.ofRecord p.1 - Weight.ofRecord? (m.files.get? p.1.key)).sum := by
  rw [delta, StatsDelta.change_foldl]
  exact zero_add _

theorem nodup_taken_key (m : Memory) (folder : String) (files : List FileEntry) :
    ((m.taken folder files).map (·.1.key)).Nodup := by
  apply List.Nodup.of_map InFolder.item
  rw [List.map_map]
  exact nodup_accepted _ _ _

theorem nodup_brought_key (m : Memory) (folder : String) (files : List FileEntry) :
    ((m.brought folder files).map (·.1.key)).Nodup := by
  rw [brought, map_stamp _ fun _ _ => rfl]
  exact nodup_taken_key m folder files

theorem Balanced.shifted (h : m.Balanced) (hk : m.IsWellKeyed) (folder : String)
    (files : List FileEntry) :
    (m.shifted folder files).weight = Weight.total ((m.written folder files).recordsOf folder) := by
  have hall := total_recordsOf_putAll hk.files (nodup_brought_key m folder files)
    (fun p hp => congrArg InFolder.folder (brought_key hp)) folder
  rw [if_pos rfl, ← change_delta, ← h.recount] at hall
  exact hall.symm

theorem recordsOf_written_of_ne (hk : m.IsWellKeyed) {other : String} (hne : folder ≠ other) :
    Weight.total ((m.written folder files).recordsOf other) = Weight.total (m.recordsOf other) := by
  have hall := total_recordsOf_putAll hk.files (nodup_brought_key m folder files)
    (fun p hp => congrArg InFolder.folder (brought_key hp)) other
  rw [if_neg hne, add_zero] at hall
  exact hall

theorem written_of_taken_nil (h : m.taken folder files = []) :
    (m.written folder files).files = m.files := by
  rw [written, brought_eq_nil_iff.mpr h]
  rfl

theorem touched_weight (m : Memory) (folder : String) (files : List FileEntry) :
    (m.touched folder files).weight = (m.shifted folder files).weight := by
  unfold touched
  split <;> rfl

theorem isNonNegative_congr {s s' : FolderStats} (h : s.weight = s'.weight) :
    s.isNonNegative = s'.isNonNegative := by
  cases s
  cases s'
  simp only [FolderStats.weight, Weight.mk.injEq] at h
  simp [FolderStats.isNonNegative, h]

theorem statsOf_merged (m : Memory) (marker : Marker) (folder other : String)
    (files : List FileEntry) :
    (m.merged marker folder files).statsOf other =
      if m.taken folder files = [] then m.statsOf other
      else if other = folder then m.touched folder files else m.statsOf other := by
  simp only [statsOf, merged, List.isEmpty_iff]
  split_ifs with htaken hother
  · rfl
  · rw [Table.get?_insert, if_pos hother, Option.getD_some]
  · rw [Table.get?_insert, if_neg hother]

theorem Balanced.merged (h : m.Balanced) (hk : m.IsWellKeyed) (hadm : m.Admits folder files)
    (marker : Marker) : (m.merged marker folder files).Balanced := by
  have hrecords : ∀ other, (m.merged marker folder files).recordsOf other =
      (m.written folder files).recordsOf other := fun _ => rfl
  constructor
  · intro other
    rw [statsOf_merged, hrecords]
    split_ifs with htaken hother
    · rw [h.recount, recordsOf, recordsOf, written_of_taken_nil htaken]
    · rw [hother, touched_weight, h.shifted hk]
    · rw [h.recount, recordsOf_written_of_ne hk (Ne.symm hother)]
  · intro other
    rw [statsOf_merged]
    split_ifs with htaken hother
    · exact h.nonneg other
    · -- What was added passed the check; the time of the last update does not weigh.
      rw [isNonNegative_congr (touched_weight m folder files)]
      exact hadm.resolve_left htaken
    · exact h.nonneg other

theorem Balanced.admits_iff (h : m.Balanced) (hk : m.IsWellKeyed) (folder : String)
    (files : List FileEntry) :
    m.Admits folder files ↔
      0 ≤ FileRecord.liveSize ((m.written folder files).recordsOf folder) := by
  rw [← FolderStats.isNonNegative_of_recount (h.shifted hk folder files)]
  constructor
  · rintro (htaken | hadm)
    · have hshift : m.shifted folder files = m.statsOf folder := by
        rw [Memory.shifted, delta_of_taken_nil htaken]
        simp [FolderStats.shift]
      rw [hshift]
      exact h.nonneg folder
    · exact hadm
  · exact .inr

end Memory

end BlockExchange
