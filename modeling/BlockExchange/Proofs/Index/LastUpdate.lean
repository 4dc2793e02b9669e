import BlockExchange.Proofs.Index.Redelivery
import BlockExchange.Proofs.Index.Sequence

namespace BlockExchange

open Index

namespace Index

def movedTime (before : Int) (times : List Int) : Int :=
  times.getLast?.elim before (max before)

variable {before : Int} {times : List Int}

theorem movedTime_mem (before : Int) (times : List Int) : movedTime before times ∈ before :: times := by
  rw [movedTime]
  cases hlast : times.getLast? with
  | none => exact List.mem_cons_self
  | some last =>
    rcases max_choice before last with h | h <;> rw [Option.elim_some, h]
    · exact List.mem_cons_self
    · exact List.mem_cons_of_mem _ (List.mem_of_getLast? hlast)

theorem le_movedTime (before : Int) (times : List Int) : before ≤ movedTime before times := by
  rw [movedTime]
  cases times.getLast? with
  | none => exact le_refl before
  | some last => exact le_max_left before last

theorem max?_eq_movedTime_iff :
    (before :: times).max? = some (movedTime before times) ↔
      ∀ time ∈ times, ∀ last ∈ times.getLast?, time ≤ max before last := by
  rw [List.max?_eq_some_iff, List.forall_mem_cons]
  constructor
  · rintro ⟨-, -, hall⟩ time htime last hlast
    have hle := hall time htime
    rwa [movedTime, Option.mem_def.mp hlast] at hle
  · intro hall
    refine ⟨movedTime_mem before times, le_movedTime before times, ?_⟩
    intro time htime
    obtain ⟨last, hlast⟩ := Option.isSome_iff_exists.mp
      (List.getLast?_isSome.mpr (List.ne_nil_of_mem htime))
    rw [movedTime, hlast]
    exact hall time htime last hlast

theorem max?_eq_movedTime_of_pairwise (h : times.Pairwise (· ≤ ·)) :
    (before :: times).max? = some (movedTime before times) := by
  rw [max?_eq_movedTime_iff]
  intro time htime last hlast
  obtain ⟨init, rfl⟩ := List.getLast?_eq_some_iff.mp hlast
  rcases List.mem_append.mp htime with htime | htime
  · have hle := (List.pairwise_append.mp h).2.2 time htime last List.mem_cons_self
    exact hle.trans (le_max_right before last)
  · rw [List.mem_singleton.mp htime]
    exact le_max_right before last

end Index

namespace Memory

variable {m : Memory} {folder : String} {files : List FileEntry}

theorem map_lastModified_taken (m : Memory) (folder : String) (files : List FileEntry) :
    (m.taken folder files).map (·.1.lastModified) =
      (acceptedEntries folder (m.records folder (files.map (·.name))) files).map (·.lastModified) := by
  have hprepared := forall₂_accepted folder (m.records folder (files.map (·.name))) files
  have htimes := hprepared.imp fun f p hp => (FileEntry.prepare?_lastModified hp).symm
  rw [taken, ← List.forall₂_eq_eq_eq, List.forall₂_map_left_iff, List.forall₂_map_right_iff]
  exact htimes.flip.imp fun _ _ => Eq.symm

theorem lastUpdate_touched (m : Memory) (folder : String) (files : List FileEntry) :
    (m.touched folder files).lastUpdate =
      movedTime (m.statsOf folder).lastUpdate
        ((acceptedEntries folder (m.records folder (files.map (·.name))) files).map
          (·.lastModified.toMillis)) := by
  have hlast := m.lastModified_delta folder files
  rw [map_lastModified_taken, List.getLast?_map] at hlast
  rw [movedTime, List.getLast?_map, touched, hlast]
  cases (acceptedEntries folder (m.records folder (files.map (·.name))) files).getLast? <;> rfl

theorem lastUpdate_merged (m : Memory) (marker : Marker) (folder : String) (files : List FileEntry) :
    ((m.merged marker folder files).statsOf folder).lastUpdate =
      movedTime (m.statsOf folder).lastUpdate
        ((acceptedEntries folder (m.records folder (files.map (·.name))) files).map
          (·.lastModified.toMillis)) := by
  by_cases htaken : m.taken folder files = []
  · have hnone := m.map_lastModified_taken folder files
    rw [htaken, List.map_nil] at hnone
    rw [statsOf_merged, if_pos htaken, List.map_eq_nil_iff.mp hnone.symm]
    rfl
  · rw [statsOf_merged_of_taken htaken, lastUpdate_touched]

end Memory

namespace Index

/-- A message that is taken in moves the time of the folder's last update to the modification time of
the record that the peer numbered last, of those that it brings, unless the folder's time is later. So
it becomes the newest of all these times exactly if no other record is newer than both, which is so
where the records came about in the order of their numbers. -/
theorem lastUpdate_eq_newest_iff {backend : Backend} {draw : UInt64} {store : Store}
    (hs : Store.create backend draw = .ok store) {operations : List Operation}
    (hb : ∀ operation ∈ operations, operation.Bounded) {folder : String} {peer : DeviceId}
    {files : List FileEntry} (hf : ∀ f ∈ files, f.Bounded) {r : Received}
    (hr : ((run { store } operations).receiveMessage folder peer files).1 = .ok r) :
    let i := run { store } operations
    ∃ before start entries, (i.statsOf folder).1 = .ok before ∧
      ((i.receiveMessage folder peer files).2.statsOf folder).1 = .ok r.stats ∧
      IsStamped folder start entries r.updated ∧
      (∀ f, f ∈ entries ↔ newest? f.name files = some f ∧
        ∃ p old, f.prepare? folder 0 = some p ∧
          (i.store.answer (.file folder f.name)).1 = .ok old ∧ p.1.supersedes old) ∧
      let times := entries.map (·.lastModified.toMillis)
      r.stats.lastUpdate = movedTime before.lastUpdate times ∧
      (∀ newest ∈ (before.lastUpdate :: times).max?, r.stats.lastUpdate ≤ newest) ∧
      ((before.lastUpdate :: times).max? = some r.stats.lastUpdate ↔
        ∀ time ∈ times, ∀ last ∈ times.getLast?, time ≤ max before.lastUpdate last) ∧
      (times.Pairwise (· ≤ ·) → (before.lastUpdate :: times).max? = some r.stats.lastUpdate) := by
  intro i
  have hholds : i.store.Holds ((Memory.fresh draw).run operations) := holds_run_of_create hs hb
  generalize (Memory.fresh draw).run operations = m at hholds
  obtain ⟨marker, -, rfl, hafter⟩ := holds_taken hholds hf hr
  have htime := m.lastUpdate_merged marker folder files
  refine ⟨m.statsOf folder, _, _, statsOf_eq hholds folder, statsOf_eq hafter folder,
    m.isStamped_brought folder files, fun f => hholds.mem_acceptedEntries, htime, ?_, ?_, ?_⟩
  · intro newest hnewest
    have hupper := (List.max?_eq_some_iff.mp hnewest).2
    exact htime ▸ hupper _ (movedTime_mem _ _)
  · exact htime ▸ max?_eq_movedTime_iff
  · exact fun h => htime ▸ max?_eq_movedTime_of_pairwise h

theorem lastUpdate_eq_newest_iff_directories :
    let operations : List Operation :=
      [.announcement "photos" .zero 7 3, .message "photos" .zero [.directory "spring" 8 1]]
    let files : List FileEntry := [.directory "summer" 10 2, .directory "winter" 12 3]
    let i := run { store := .memory (.fresh 5) } operations
    ∃ r before, ∃ entries : List FileEntry, (i.receiveMessage "photos" .zero files).1 = .ok r ∧
      (i.statsOf "photos").1 = .ok before ∧ before.lastUpdate = 8000 ∧
      r.stats.lastUpdate = movedTime before.lastUpdate (entries.map (·.lastModified.toMillis)) ∧
      r.stats.lastUpdate = 12000 := by
  intro operations files i
  have hs : Store.create .memory 5 = .ok (.memory (.fresh 5)) := rfl
  have hb : ∀ operation ∈ operations, operation.Bounded := by decide
  have hf : ∀ f ∈ files, f.Bounded := by decide
  have hnew : (i.receiveMessage "photos" .zero files).1.map (·.stats.lastUpdate) = .ok 12000 := by
    unfold i operations files
    cbv
  have hold : (i.statsOf "photos").1.map (·.lastUpdate) = .ok 8000 := by
    unfold i operations
    cbv
  cases hr : (i.receiveMessage "photos" .zero files).1 with
  | error e =>
    rw [hr] at hnew
    cases hnew
  | ok r =>
    obtain ⟨before, start, entries, hbefore, -, -, -, htime, -⟩ := lastUpdate_eq_newest_iff hs hb hf hr
    rw [hr] at hnew
    rw [hbefore] at hold
    exact ⟨r, before, entries, rfl, hbefore, Except.ok.inj hold, htime, Except.ok.inj hnew⟩

theorem lastUpdate_behind_newest :
    let i := run { store := .memory (.fresh 5) } [.announcement "photos" .zero 7 2]
    let summer : FileEntry := .directory "summer" 12 1
    let winter : FileEntry := .directory "winter" 10 2
    (i.statsOf "photos").1.map (·.lastUpdate) = .ok 0 ∧
      (i.receiveMessage "photos" .zero [summer, winter]).1.map (fun r =>
          (r.updated.map (·.lastModified.toMillis), r.stats.lastUpdate)) =
        .ok ([12000, 10000], 10000) ∧
      ((i.perform (.message "photos" .zero [summer])).receiveMessage "photos" .zero [winter]).1.map
          (·.stats.lastUpdate) = .ok 12000 := by
  intro i summer winter
  unfold i summer winter
  refine ⟨?_, ?_, ?_⟩ <;> cbv

end Index

end BlockExchange
