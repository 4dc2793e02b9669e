import BlockExchange.Proofs.Index.Convergence
import BlockExchange.Proofs.Store.Reachable

namespace BlockExchange

open Index

namespace Memory

variable {m : Memory} {marker : Marker} {folder : String} {files : List FileEntry}

theorem taken_merged (m : Memory) (marker : Marker) (folder : String) (files : List FileEntry) :
    (m.merged marker folder files).taken folder files = m.taken folder files := by
  unfold taken accepted
  apply List.filter_congr
  rintro p hp
  obtain ⟨f, hf, hprep⟩ := List.mem_filterMap.mp hp
  have hpath : p.1.path = f.name := congrArg InFolder.item (FileEntry.prepare?_key hprep)
  have hoff : offered? folder p.1.path files = some p :=
    offered?_eq_some_iff.mpr ⟨f, hpath ▸ mem_latestByPath.mp hf, hprep⟩
  have hmem : p.1.path ∈ files.map (·.name) :=
    hpath ▸ List.mem_map_of_mem (mem_of_newest? (mem_latestByPath.mp hf))
  have hslot := m.slot_merged marker folder files marker.device ⟨folder, p.1.path⟩
  rw [Operation.offer?, if_pos rfl, hoff, Option.elim_some] at hslot
  have hsame : p.1.supersedes ((m.merged marker folder files).slot ⟨folder, p.1.path⟩).1 =
      p.1.supersedes (m.slot ⟨folder, p.1.path⟩).1 := by
    rw [hslot, Slot.supersedes_settle]
  simp only [slot, supersedes_withSequence] at hsame
  change p.1.supersedes (Table.get? _ p.1.path) = p.1.supersedes (Table.get? _ p.1.path)
  rw [get?_records, get?_records, if_pos hmem, if_pos hmem, hsame]

theorem brought_merged (m : Memory) (marker : Marker) (folder : String) (files : List FileEntry) :
    (m.merged marker folder files).brought folder files =
      stamp ((m.merged marker folder files).sequence + 1) (m.taken folder files) := by
  rw [brought, taken_merged]

theorem get?_files_merged_of_taken (marker : Marker) {p : FileRecord × Option BlockList}
    (hp : p ∈ m.taken folder files) :
    ((m.merged marker folder files).files.get? p.1.key).map (·.withSequence 0) = some p.1 := by
  have ht := mem_taken.mp hp
  have hkey := taken?_key ht
  rw [hkey]
  exact congrArg Prod.fst (slot_written_of_some (k := ⟨folder, p.1.path⟩) ht rfl)

theorem change_delta_merged (m : Memory) (marker : Marker) (folder : String)
    (files : List FileEntry) :
    ((m.merged marker folder files).delta folder files).change = 0 := by
  rw [change_delta, brought_merged, map_stamp _ fun _ _ => rfl]
  apply List.sum_eq_zero
  intro w hw
  obtain ⟨p, hp, rfl⟩ := List.mem_map.mp hw
  obtain ⟨r, hr, hrp⟩ := Option.map_eq_some_iff.mp (get?_files_merged_of_taken marker hp)
  rw [hr, ← hrp, Weight.ofRecord?, Weight.ofRecord_withSequence, sub_self]

theorem lastModified_delta (m : Memory) (folder : String) (files : List FileEntry) :
    (m.delta folder files).lastModified =
      ((m.taken folder files).map (·.1.lastModified)).getLast? := by
  rw [delta, StatsDelta.lastModified_foldl, Option.or_none, ← List.getLast?_map, brought,
    map_stamp _ fun _ _ => rfl]

theorem get?_stats_merged (m : Memory) (marker : Marker) (folder : String)
    (files : List FileEntry) (other : String) :
    (m.merged marker folder files).stats.get? other =
      if m.taken folder files = [] then m.stats.get? other
      else if other = folder then some (m.touched folder files) else m.stats.get? other := by
  simp only [merged, List.isEmpty_iff]
  split_ifs with htaken hother
  · rfl
  · rw [Table.get?_insert, if_pos hother]
  · rw [Table.get?_insert, if_neg hother]

theorem statsOf_merged_of_taken (h : m.taken folder files ≠ []) :
    (m.merged marker folder files).statsOf folder = m.touched folder files := by
  rw [statsOf_merged, if_neg h, if_pos rfl]

theorem shift_zero (s : FolderStats) : s.shift 0 = s := by
  simp [FolderStats.shift]

theorem shifted_merged (m : Memory) (marker : Marker) (folder : String) (files : List FileEntry) :
    (m.merged marker folder files).shifted folder files =
      (m.merged marker folder files).statsOf folder := by
  rw [shifted, change_delta_merged, shift_zero]

theorem touched_merged (h : m.taken folder files ≠ []) :
    (m.merged marker folder files).touched folder files = m.touched folder files := by
  have htime : ((m.merged marker folder files).delta folder files).lastModified =
      (m.delta folder files).lastModified := by
    rw [lastModified_delta, lastModified_delta, taken_merged]
  rw [touched, shifted_merged, statsOf_merged_of_taken h, htime]
  cases hlast : (m.delta folder files).lastModified with
  | none => rfl
  | some time => simp only [touched, hlast, max_assoc, max_self]

theorem Admits.again (h : m.Admits folder files) (marker : Marker) :
    (m.merged marker folder files).Admits folder files := by
  rw [Admits, taken_merged, shifted_merged]
  by_cases htaken : m.taken folder files = []
  · exact .inl htaken
  · right
    rw [statsOf_merged_of_taken htaken, isNonNegative_congr (touched_weight m folder files)]
    exact h.resolve_left htaken

theorem advanced_advanced (marker : Marker) (files : List FileEntry) :
    advanced (advanced marker files) files = advanced marker files := by
  cases hmax : (files.map (·.sequence.toInt)).max? with
  | none => simp only [advanced, hmax]
  | some newest => simp only [advanced, hmax, Marker.upTo_upTo, max_self]

theorem advanced_key (marker : Marker) (files : List FileEntry) :
    (advanced marker files).key = marker.key := by
  unfold advanced
  cases (files.map (·.sequence.toInt)).max? <;> rfl

def mergedTwice (m : Memory) (marker : Marker) (folder : String) (files : List FileEntry) : Memory :=
  (m.merged marker folder files).merged (advanced marker files) folder files

theorem slot_mergedTwice (m : Memory) (marker : Marker) (folder : String) (files : List FileEntry)
    (k : InFolder String) :
    (m.mergedTwice marker folder files).slot k = (m.merged marker folder files).slot k := by
  have hfirst := m.slot_merged marker folder files marker.device k
  have hagain := (m.merged marker folder files).slot_merged (advanced marker files) folder files
    marker.device k
  rw [mergedTwice, hagain, hfirst]
  cases (Operation.message folder marker.device files).offer? k with
  | none => rfl
  | some p => exact Slot.settle_self _ p

theorem get?_stats_mergedTwice (m : Memory) (marker : Marker) (folder : String)
    (files : List FileEntry) (other : String) :
    (m.mergedTwice marker folder files).stats.get? other =
      (m.merged marker folder files).stats.get? other := by
  rw [mergedTwice, get?_stats_merged _ (advanced marker files), taken_merged]
  split_ifs with htaken hother
  · rfl
  · rw [touched_merged htaken, hother, get?_stats_merged, if_neg htaken, if_pos rfl]
  · rfl

theorem get?_markers_mergedTwice (hk : m.markers.get? marker.key = some marker)
    (k : InFolder DeviceId) :
    (m.mergedTwice marker folder files).markers.get? k =
      (m.merged marker folder files).markers.get? k := by
  have hfirst : (m.merged marker folder files).markers.get? (advanced marker files).key =
      some (advanced marker files) := by
    rw [advanced_key, get?_markers_merged hk, if_pos rfl]
  rw [mergedTwice, get?_markers_merged hfirst, advanced_advanced]
  split_ifs with hkey
  · rw [hkey, hfirst]
  · rfl

end Memory

structure Store.Coincides (s s' : Store) : Prop extends s.Agrees s' where
  statsRow : ∀ folder, ∃ c, (s.answer (.stats folder)).1 = .ok c ∧
    (s'.answer (.stats folder)).1 = .ok c

namespace Index

variable {s s' : Store} {m : Memory} {folder : String} {peer : DeviceId} {files : List FileEntry}
  {r : Received}

theorem holds_receive (h : s.Holds m) (hf : ∀ f ∈ files, f.Bounded)
    (hr : s.transact (receive folder peer files) = (.ok r, s')) :
    ∃ marker, m.markers.get? ⟨folder, peer⟩ = some marker ∧ m.Admits folder files ∧
      r = m.received marker folder files ∧ s'.Holds (m.merged marker folder files) := by
  cases hk : m.markers.get? ⟨folder, peer⟩ with
  | none =>
    rw [h.transact_error (receive_plays_noMarker hk)] at hr
    cases hr
  | some marker =>
    by_cases hadm : m.Admits folder files
    · obtain ⟨hreply, hnext⟩ := h.transact_ok (receive_plays_ok hf hk hadm)
      rw [hr] at hreply hnext
      exact ⟨marker, rfl, hadm, Except.ok.inj hreply, hnext⟩
    · rw [h.transact_error (receive_plays_error hf hk hadm)] at hr
      cases hr

theorem receive_again (hs : s.Reachable) (hf : ∀ f ∈ files, f.Bounded)
    (hr : s.transact (receive folder peer files) = (.ok r, s')) :
    ∃ r' s'', s'.transact (receive folder peer files) = (.ok r', s'') ∧
      r'.marker = r.marker ∧ r'.stats = r.stats ∧
      r'.updated.map (·.withSequence 0) = r.updated.map (·.withSequence 0) ∧
      s'.Coincides s'' := by
  obtain ⟨m, hm⟩ := hs.exists_holds
  obtain ⟨marker, hk, hadm, rfl, hm'⟩ := holds_receive hm hf hr
  have hkey : marker.key = ⟨folder, peer⟩ := hm.keyed.markers.key_of_get? hk
  have hk' : (m.merged marker folder files).markers.get? ⟨folder, peer⟩ =
      some (Memory.advanced marker files) := by
    rw [← hkey, Memory.get?_markers_merged (hkey ▸ hk), if_pos rfl]
  -- The same records are taken in again, each in its own place, so that nothing is moved.
  obtain ⟨hreply, hm''⟩ := hm'.transact_ok (receive_plays_ok hf hk' (hadm.again marker))
  have hstats := m.get?_stats_mergedTwice marker folder files
  have hstatsOf : ∀ other, (m.mergedTwice marker folder files).statsOf other =
      (m.merged marker folder files).statsOf other := by
    intro other
    rw [Memory.statsOf, hstats, Memory.statsOf]
  refine ⟨_, _, Prod.ext hreply rfl, Memory.advanced_advanced marker files, hstatsOf folder, ?_, ?_⟩
  · simp only [Memory.received, List.map_map]
    rw [Memory.brought_merged, map_stamp _ fun _ _ => rfl, Memory.brought, map_stamp _ fun _ _ => rfl]
  · constructor
    · apply Store.agrees_of_weight hm' hm''
      · exact fun k => (m.slot_mergedTwice marker folder files k).symm
      · exact fun k => (Memory.get?_markers_mergedTwice (hkey ▸ hk) k).symm
      · exact fun other => congrArg FolderStats.weight (hstatsOf other).symm
    · exact fun other => ⟨_, hm'.stats_eq other, (hm''.stats_eq other).trans (congrArg _ (hstats other))⟩

theorem receive_again_directory :
    let known := ((Store.memory (.fresh 5)).transact (Query.putMarker ⟨"photos", .zero, 7, 0, 2⟩).ask).2
    let files : List FileEntry := [.directory "summer" 10 1]
    ∃ r s r' s', known.transact (receive "photos" .zero files) = (.ok r, s) ∧
      s.transact (receive "photos" .zero files) = (.ok r', s') ∧ s.Coincides s' ∧
      r.updated.map (fun u => (u.path, u.sequence)) = [("summer", 1)] ∧
      r'.updated.map (·.withSequence 0) = r.updated.map (·.withSequence 0) ∧
      (known.answer (.stats "photos")).1 = .ok none ∧
      r.stats = { folder := "photos", dirs := 1, lastUpdate := 10000 } ∧ r'.stats = r.stats := by
  intro known files
  have hcreate : Store.create .memory 5 = .ok (.memory (.fresh 5)) := rfl
  have hput : (Query.putMarker ⟨"photos", .zero, 7, 0, 2⟩).ask.Asks (fun _ q => q.Storable)
      (.memory (.fresh 5)) := ⟨trivial, trivial⟩
  have hknown : known.Reachable := (Store.Reachable.created hcreate).transacted hput
  have hresult : (known.transact (receive "photos" .zero files)).1.map (fun r =>
      (r.updated.map (fun u => (u.path, u.sequence)), r.stats)) =
        .ok ([("summer", 1)], { folder := "photos", dirs := 1, lastUpdate := 10000 }) := by
    decide +kernel
  cases hr : known.transact (receive "photos" .zero files) with
  | mk reply s =>
    cases reply with
    | error e =>
      rw [hr] at hresult
      cases hresult
    | ok r =>
      rw [hr] at hresult
      obtain ⟨hstored, hmoved⟩ := Prod.mk.inj (Except.ok.inj hresult)
      obtain ⟨r', s', hagain, -, hstats, hupdated, hsame⟩ := receive_again hknown (by decide) hr
      exact ⟨r, s, r', s', rfl, hagain, hsame, hstored, hupdated, rfl, hmoved, hstats⟩

end Index

end BlockExchange
