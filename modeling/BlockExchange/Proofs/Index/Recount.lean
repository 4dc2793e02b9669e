import BlockExchange.Proofs.Index.Run

namespace BlockExchange.Index

theorem statsOf_eq_recount {backend : Backend} {draw : UInt64} {store : Store}
    (hs : Store.create backend draw = .ok store) {operations : List Operation}
    (hb : ∀ operation ∈ operations, operation.Bounded) (folder : String) :
    ∃ records stats,
      (run { store } operations).store.records folder = .ok records ∧
      ((run { store } operations).statsOf folder).1 = .ok stats ∧
      stats.files = (records.filter FileRecord.isLiveFile).length ∧
      stats.dirs = (records.filter FileRecord.isLiveDirectory).length ∧
      stats.size = FileRecord.liveSize records ∧
      0 ≤ stats.files ∧ 0 ≤ stats.dirs ∧ 0 ≤ stats.size := by
  obtain ⟨m, hholds, hbal⟩ := exists_holds_run hs hb
  obtain ⟨records, hrecords, hperm⟩ := hholds.records_eq folder
  have hweight : (m.statsOf folder).weight = Weight.total records := by
    rw [hbal.recount, Weight.total_perm hperm]
  obtain ⟨hfiles, hdirs, hsize⟩ := FolderStats.counts_of_recount hweight
  have hnonneg := hbal.nonneg folder
  simp only [FolderStats.isNonNegative, Bool.and_eq_true, decide_eq_true_eq] at hnonneg
  obtain ⟨⟨hf, hd⟩, hz⟩ := hnonneg
  exact ⟨records, m.statsOf folder, hrecords, statsOf_eq hholds folder, hfiles, hdirs, hsize,
    hf, hd, hz⟩

theorem statsOf_eq_recount_directories :
    let operations : List Operation :=
      [.announcement "photos" .zero 7 2,
       .message "photos" .zero [.directory "summer" 10 1],
       .message "photos" .zero [{ name := "beach", size := 5, versions := [⟨1, 1⟩], sequence := 2
                                  blocks := [⟨0, 5, [1], 0⟩] }],
       .message "photos" .zero [.directory "winter" 11 3],
       .message "music" .zero [.directory "summer" 12 3]]
    ∃ records stats,
      (run { store := .memory (.fresh 5) } operations).store.records "photos" = .ok records ∧
      ((run { store := .memory (.fresh 5) } operations).statsOf "photos").1 = .ok stats ∧
      records.map (·.path) = ["beach", "summer", "winter"] ∧
      stats = { folder := "photos", files := 1, dirs := 2, size := 5, lastUpdate := 11000 } ∧
      stats.dirs = (records.filter FileRecord.isLiveDirectory).length ∧
      stats.size = FileRecord.liveSize records := by
  intro operations
  have hs : Store.create .memory 5 = .ok (.memory (.fresh 5)) := rfl
  have hb : ∀ operation ∈ operations, operation.Bounded := by decide
  have hpaths : ((run { store := .memory (.fresh 5) } operations).store.records "photos").map
      (·.map (·.path)) = .ok ["beach", "summer", "winter"] := by
    unfold operations
    decide +kernel
  have hmoved : ((run { store := .memory (.fresh 5) } operations).statsOf "photos").1 =
      .ok { folder := "photos", files := 1, dirs := 2, size := 5, lastUpdate := 11000 } := by
    unfold operations
    decide +kernel
  obtain ⟨records, stats, hrecords, hstats, -, hdirs, hsize, -⟩ := statsOf_eq_recount hs hb "photos"
  rw [hrecords] at hpaths
  exact ⟨records, stats, hrecords, hstats, Except.ok.inj hpaths,
    Except.ok.inj (hstats.symm.trans hmoved), hdirs, hsize⟩

end BlockExchange.Index
