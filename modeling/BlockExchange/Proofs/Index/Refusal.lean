import BlockExchange.Proofs.Index.Slot

namespace BlockExchange

def FileRecord.overwrite (records : List FileRecord) (r : FileRecord) : List FileRecord :=
  r :: records.filter fun old => old.path ≠ r.path

theorem FileRecord.overwrite_perm {records records' : List FileRecord} (h : records.Perm records')
    (r : FileRecord) : (overwrite records r).Perm (overwrite records' r) :=
  (h.filter _).cons r

theorem FileRecord.foldl_overwrite_perm {records records' : List FileRecord}
    (h : records.Perm records') (batch : List FileRecord) :
    (batch.foldl overwrite records).Perm (batch.foldl overwrite records') := by
  induction batch generalizing records records' with
  | nil => exact h
  | cons r rest ih => exact ih (overwrite_perm h r)

namespace Memory

variable {m : Memory} {folder : String} {files : List FileEntry}

theorem recordsOf_putFile (hk : m.files.IsKeyedBy FileRecord.key) {r : FileRecord}
    (hr : r.folder = folder) (blocks : Option BlockList) :
    ((m.putFile r blocks).recordsOf folder).Perm (FileRecord.overwrite (m.recordsOf folder) r) := by
  have hperm := (m.files.values_insert r.key r).filter fun r => r.folder = folder
  rw [List.filter_cons, if_pos (by simpa using hr), hk.values_erase] at hperm
  refine hperm.trans (List.Perm.cons r (List.Perm.of_eq ?_))
  rw [List.filter_filter, recordsOf, List.filter_filter]
  apply List.filter_congr
  intro old _
  by_cases ho : old.folder = folder
  · simp [FileRecord.key, ho, hr, eq_comm]
  · simp [ho]

theorem recordsOf_putAll (hk : m.files.IsKeyedBy FileRecord.key)
    {pairs : List (FileRecord × Option BlockList)} (hfolder : ∀ p ∈ pairs, p.1.folder = folder) :
    ((m.putAll pairs).recordsOf folder).Perm
      ((pairs.map (·.1)).foldl FileRecord.overwrite (m.recordsOf folder)) := by
  induction pairs generalizing m with
  | nil => exact .refl _
  | cons p rest ih =>
    have hput : (m.putFile p.1 p.2).files.IsKeyedBy FileRecord.key := hk.insert p.1
    have hone := recordsOf_putFile hk (hfolder p List.mem_cons_self) p.2
    apply (ih hput fun q hq => hfolder q (List.mem_cons_of_mem _ hq)).trans
    exact FileRecord.foldl_overwrite_perm hone _

theorem total_recordsOf_written (hk : m.IsWellKeyed) (folder : String) (files : List FileEntry) :
    Weight.total ((m.written folder files).recordsOf folder) =
      Weight.total (((m.taken folder files).map (·.1)).foldl FileRecord.overwrite
        (m.recordsOf folder)) := by
  have hfolder : ∀ p ∈ m.taken folder files, p.1.folder = folder := fun p hp =>
    congrArg InFolder.folder (taken?_key (mem_taken.mp hp))
  have hbrought := total_recordsOf_putAll hk.files (nodup_brought_key m folder files)
    (fun p hp => congrArg InFolder.folder (brought_key hp)) folder
  have htaken := total_recordsOf_putAll hk.files (nodup_taken_key m folder files) hfolder folder
  rw [brought, Index.map_stamp _ fun _ _ => rfl, ← htaken,
    Weight.total_perm (recordsOf_putAll hk.files hfolder)] at hbrought
  exact hbrought

theorem shifted_eq (hk : m.IsWellKeyed) {after : List FileRecord}
    (h : (m.shifted folder files).weight = Weight.total after) :
    m.shifted folder files =
      { folder
        files := (after.filter FileRecord.isLiveFile).length
        dirs := (after.filter FileRecord.isLiveDirectory).length
        size := FileRecord.liveSize after
        lastUpdate := (m.statsOf folder).lastUpdate } := by
  obtain ⟨hfiles, hdirs, hsize⟩ := FolderStats.counts_of_recount h
  have hfolder : (m.shifted folder files).folder = folder := hk.statsOf_folder folder
  have heta : m.shifted folder files =
      ⟨(m.shifted folder files).folder, (m.shifted folder files).files,
        (m.shifted folder files).dirs, (m.shifted folder files).size,
        (m.statsOf folder).lastUpdate⟩ := rfl
  rw [hfolder, hfiles, hdirs, hsize] at heta
  exact heta

end Memory

namespace Index

open FileRecord

theorem receiveMessage_refused_iff {backend : Backend} {draw : UInt64} {store : Store}
    (hs : Store.create backend draw = .ok store) {operations : List Operation}
    (hb : ∀ operation ∈ operations, operation.Bounded) (folder : String) (peer : DeviceId)
    {files : List FileEntry} (hf : ∀ f ∈ files, f.Bounded) :
    let i := run { store } operations
    ∃ marker records old stats,
      (i.store.answer (.marker folder peer)).1 = .ok marker ∧
      (i.store.answer (.files folder (files.map (·.name)))).1 = .ok old ∧
      i.store.records folder = .ok records ∧
      (i.statsOf folder).1 = .ok stats ∧
      let after := ((accepted folder old files).map (·.1)).foldl overwrite records
      ((∃ e, (i.receiveMessage folder peer files).1 = .error e) ↔
        marker = none ∨ liveSize after < 0) ∧
      (marker = none →
        i.receiveMessage folder peer files = (.error (.noMarker peer folder), i)) ∧
      (marker ≠ none → liveSize after < 0 →
        i.receiveMessage folder peer files =
          (.error (.store (.negativeStats
            { folder
              files := (after.filter isLiveFile).length
              dirs := (after.filter isLiveDirectory).length
              size := liveSize after
              lastUpdate := stats.lastUpdate })), i)) := by
  intro i
  obtain ⟨m, hholds, hbal⟩ := exists_holds_run hs hb
  change i.store.Holds m at hholds
  obtain ⟨records, hrecords, hperm⟩ := hholds.records_eq folder
  refine ⟨m.markers.get? ⟨folder, peer⟩, records, m.records folder (files.map (·.name)),
    m.statsOf folder, hholds.marker_eq folder peer, hholds.files_eq folder _, hrecords,
    statsOf_eq hholds folder, ?_⟩
  intro after
  have htotal : Weight.total ((m.written folder files).recordsOf folder) = Weight.total after := by
    rw [Memory.total_recordsOf_written hholds.keyed]
    exact Weight.total_perm (foldl_overwrite_perm hperm.symm _)
  -- Counts are never negative, so the size alone can refuse.
  have hsize : liveSize ((m.written folder files).recordsOf folder) = liveSize after := by
    rw [← Weight.total_size, ← Weight.total_size, htotal]
  have hadm := hbal.admits_iff hholds.keyed folder files
  rw [hsize] at hadm
  refine ⟨?_, fun hnone => receiveMessage_noMarker hholds hnone, ?_⟩
  · have herror : (∃ e, (i.receiveMessage folder peer files).1 = .error e) ↔
        ¬(i.receiveMessage folder peer files).1.isOk = true := by
      cases (i.receiveMessage folder peer files).1 <;> simp [Except.isOk, Except.toBool]
    rw [herror, receiveMessage_isOk_iff hholds hf, Memory.TakesIn, not_and_or, hadm, Int.not_le,
      Bool.not_eq_true, Option.isSome_eq_false_iff, Option.isNone_iff_eq_none]
  · intro hsome hneg
    obtain ⟨marker, hk⟩ := Option.ne_none_iff_exists'.mp hsome
    have hweight : (m.shifted folder files).weight = Weight.total after := by
      rw [hbal.shifted hholds.keyed, htotal]
    have hrefused := receiveMessage_refused hholds hf hk (mt hadm.mp (Int.not_le.mpr hneg))
    rw [hrefused, Memory.shifted_eq hholds.keyed hweight]

theorem receiveMessage_refused_iff_beach :
    let operations : List Operation :=
      [.announcement "photos" .zero 7 2, .message "photos" .zero [.directory "summer" 10 1]]
    let i := run { store := .memory (.fresh 5) } operations
    let files : List FileEntry :=
      [{ name := "beach", size := -5, versions := [⟨1, 1⟩], sequence := 2
         blocks := [⟨0, -5, [1], 0⟩] }]
    i.receiveMessage "music" .zero files = (.error (.noMarker .zero "music"), i) ∧
      i.receiveMessage "photos" .zero files =
        (.error (.store (.negativeStats
          { folder := "photos", files := 1, dirs := 1, size := -5, lastUpdate := 10000 })), i) := by
  intro operations i files
  have hs : Store.create .memory 5 = .ok (.memory (.fresh 5)) := rfl
  have hb : ∀ operation ∈ operations, operation.Bounded := by decide
  have hf : ∀ f ∈ files, f.Bounded := by decide
  constructor
  · obtain ⟨marker, records, old, stats, hmarker, -, -, -, -, hunknown, -⟩ :=
      receiveMessage_refused_iff hs hb "music" .zero hf
    have hnone : (i.store.answer (.marker "music" .zero)).1 = .ok none := by decide +kernel
    exact hunknown (Except.ok.inj (hmarker.symm.trans hnone))
  · obtain ⟨marker, records, old, stats, hmarker, hold, hrecords, hstats, -, -, hnegative⟩ :=
      receiveMessage_refused_iff hs hb "photos" .zero hf
    have hknown : (i.store.answer (.marker "photos" .zero)).1 =
        .ok (some ⟨"photos", .zero, 7, 1, 2⟩) := by
      decide +kernel
    have hnone : (i.store.answer (.files "photos" (files.map (·.name)))).1 = .ok ∅ := by
      decide +kernel
    let summer : FileRecord :=
      { folder := "photos", path := "summer", lastModified := ⟨10, 0⟩, versions := [⟨1, 1⟩],
        sequence := 1, kind := .directory }
    have hsummer : i.store.records "photos" = .ok [summer] := by decide +kernel
    have hcounted : (i.statsOf "photos").1 =
        .ok { folder := "photos", dirs := 1, lastUpdate := 10000 } := by
      decide +kernel
    cases hmarker.symm.trans hknown
    cases hold.symm.trans hnone
    cases hrecords.symm.trans hsummer
    cases hstats.symm.trans hcounted
    let after := ((accepted "photos" ∅ files).map (·.1)).foldl overwrite [summer]
    have hfiles : (after.filter isLiveFile).length = 1 := by decide +kernel
    have hdirs : (after.filter isLiveDirectory).length = 1 := by decide +kernel
    have hsize : liveSize after = -5 := by decide +kernel
    have hrefused := hnegative nofun (by rw [hsize]; decide)
    rwa [hfiles, hdirs, hsize] at hrefused

end Index

end BlockExchange
