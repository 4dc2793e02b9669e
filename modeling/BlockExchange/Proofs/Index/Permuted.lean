import BlockExchange.Index
import BlockExchange.Proofs.Index.Run
import BlockExchange.Proofs.Store.Reachable

namespace BlockExchange

open Transaction

namespace Memory

theorem records_congr (m : Memory) (folder : String) {paths paths' : List String}
    (h : ∀ path, path ∈ paths ↔ path ∈ paths') :
    m.records folder paths = m.records folder paths' := by
  apply Table.ext_get?
  intro path
  rw [get?_records, get?_records, if_congr (h path) rfl rfl]

end Memory

namespace Index

variable {files files' : List FileEntry}

theorem max?_perm {numbers numbers' : List Int} (h : numbers.Perm numbers') :
    numbers.max? = numbers'.max? := by
  apply Option.ext
  intro n
  simp only [List.max?_eq_some_iff, h.mem_iff]

theorem takeIn_perm {s : Store} {m : Memory} (hs : s.Holds m) (marker : Marker) (folder : String)
    (h : files.Perm files') (hd : (files.map (·.sequence)).Nodup) :
    (takeIn marker folder files).run Store.answer s =
      (takeIn marker folder files').run Store.answer s := by
  have hpaths : m.records folder (files.map (·.name)) = m.records folder (files'.map (·.name)) :=
    m.records_congr folder fun _ => (h.map _).mem_iff
  have hpush : ∀ old delta,
      pushRecords folder files old delta = pushRecords folder files' old delta := by
    intro old
    apply pushRecords_congr _ fun _ _ => rfl
    rw [accepted, latestByPath_perm h hd, accepted]
  unfold takeIn
  rw [run_bind_ok (hs.search_run folder _), run_bind_ok (hs.search_run folder _), hpaths,
    max?_perm (h.map _)]
  simp only [hpush]

variable {folder : String} {peer : DeviceId}

theorem receive_perm {s : Store} (hs : s.Reachable) (h : files.Perm files')
    (hd : (files.map (·.sequence)).Nodup) :
    (receive folder peer files).run Store.answer s =
      (receive folder peer files').run Store.answer s := by
  obtain ⟨m, hm⟩ := hs.exists_holds
  rcases receive_run_cases folder peer s with ⟨e, hunknown⟩ | ⟨marker, hknown⟩
  · rw [hunknown, hunknown]
  · rw [hknown, hknown, run_mapError, run_mapError, takeIn_perm hm marker folder h hd]

theorem receiveMessage_perm {i : Index} (hs : i.store.Reachable) (h : files.Perm files')
    (hd : (files.map (·.sequence)).Nodup) :
    (receive folder peer files).run Store.answer i.store =
        (receive folder peer files').run Store.answer i.store ∧
      i.receiveMessage folder peer files = i.receiveMessage folder peer files' := by
  have hrun : (receive folder peer files).run Store.answer i.store =
      (receive folder peer files').run Store.answer i.store := receive_perm hs h hd
  refine ⟨hrun, ?_⟩
  unfold receiveMessage merge transact Store.transact commit
  rw [hrun]

theorem receiveMessage_perm_directories :
    let i : Index := { store := .knowing ⟨"photos", .zero, 7, 0, 4⟩ }
    let files : List FileEntry :=
      [.directory "summer" 10 3, .directory "winter" 20 1, .directory "summer" 5 4]
    let after := (i.receiveMessage "photos" .zero files).2
    (i.receiveMessage "photos" .zero files).1.isOk ∧
      (i.store.answer (.file "photos" "summer")).1 = .ok none ∧
      (after.store.answer (.file "photos" "summer")).1.map (·.map (·.lastModified)) =
        .ok (some ⟨5, 0⟩) ∧
      (i.statsOf "photos").1.map (·.dirs) = .ok 0 ∧
      (after.statsOf "photos").1.map (·.dirs) = .ok 2 ∧
      i.receiveMessage "photos" .zero files = i.receiveMessage "photos" .zero files.reverse := by
  intro i files after
  have hperm : files.Perm files.reverse := (List.reverse_perm files).symm
  have hlatest : latestByPath files = [.directory "winter" 20 1, .directory "summer" 5 4] := by
    simp [files, latestByPath, List.mergeSort, List.MergeSort.Internal.splitInTwo, keepLast,
      FileEntry.directory]
  have hok : (i.receiveMessage "photos" .zero files).1.isOk = true := by
    unfold receiveMessage merge receive takeIn pushRecords accepted
    rw [hlatest]
    decide +kernel
  have hstored : (after.store.answer (.file "photos" "summer")).1.map (·.map (·.lastModified)) =
      .ok (some ⟨5, 0⟩) := by
    unfold after receiveMessage merge receive takeIn pushRecords accepted
    rw [hlatest]
    decide +kernel
  have hmoved : (after.statsOf "photos").1.map (·.dirs) = .ok 2 := by
    unfold after receiveMessage merge receive takeIn pushRecords accepted
    rw [hlatest]
    decide +kernel
  refine ⟨hok, by decide +kernel, hstored, by decide +kernel, hmoved, ?_⟩
  exact (receiveMessage_perm (Store.reachable_knowing _) hperm (by decide)).2

end Index

end BlockExchange
