import BlockExchange.Proofs.Index.Redelivery

namespace BlockExchange

open Index Transaction

namespace Index

def unnumbered (p : FileRecord × Option BlockList) : FileRecord × Option BlockList :=
  (p.1.withSequence 0, p.2)

def takenOf (folder : String) (old : Option FileRecord) (sequence : Int) (f : FileEntry) :
    Option (FileRecord × Option BlockList) :=
  (f.prepare? folder sequence).filter fun p => p.1.supersedes old

def takenEach (folder : String) (old : Table String FileRecord) :
    (start : Int) → List FileEntry → List (FileRecord × Option BlockList)
  | _, [] => []
  | start, f :: rest =>
    (takenOf folder (old.get? f.name) start f).toList ++ takenEach folder old (start + 1) rest

def pushEach (folder : String) (old : Table String FileRecord) :
    List FileEntry → StatsDelta → Transaction StoreError (List FileRecord × StatsDelta)
  | [], delta => return ([], delta)
  | f :: rest, delta => do
    let (r, delta) ← pushRecord folder f (old.get? f.name) delta
    let (records, delta) ← pushEach folder old rest delta
    return (r.toList ++ records, delta)

variable {folder : String} {files : List FileEntry} {f : FileEntry}
  {p : FileRecord × Option BlockList}

theorem path_of_takenOf {o : Option FileRecord} {n : Int} (h : takenOf folder o n f = some p) :
    p.1.path = f.name :=
  congrArg InFolder.item (FileEntry.prepare?_key (Option.filter_eq_some_iff.mp h).1)

theorem unnumbered_takenOf (folder : String) (o : Option FileRecord) (n : Int) (f : FileEntry) :
    (takenOf folder o n f).map unnumbered = (takenOf folder o 0 f).map unnumbered := by
  have hprep : f.prepare? folder n =
      (f.prepare? folder 0).map fun p => (p.1.withSequence n, p.2) :=
    f.prepare?_withSequence folder n
  rw [takenOf, hprep, Option.filter_map, Option.map_map]
  rfl

theorem unnumbered_takenEach (folder : String) (old : Table String FileRecord) (start : Int)
    (files : List FileEntry) :
    (takenEach folder old start files).map unnumbered =
      (files.filterMap fun f => takenOf folder (old.get? f.name) 0 f).map unnumbered := by
  induction files generalizing start with
  | nil => rfl
  | cons f rest ih =>
    have hf := unnumbered_takenOf folder (old.get? f.name) start f
    rw [takenEach, List.map_append, ih, List.filterMap_cons]
    cases h : takenOf folder (old.get? f.name) 0 f with
    | none =>
      rw [h, Option.map_none, Option.map_eq_none_iff] at hf
      rw [hf]
      rfl
    | some p =>
      rw [h] at hf
      obtain ⟨q, hq, hqp⟩ := Option.map_eq_some_iff.mp hf
      rw [hq, Option.toList_some, List.map_singleton, hqp, List.map_cons]
      rfl

theorem accepted_eq (folder : String) (old : Table String FileRecord) (files : List FileEntry) :
    accepted folder old files =
      (latestByPath files).filterMap fun f => takenOf folder (old.get? f.name) 0 f := by
  unfold accepted
  rw [List.filter_filterMap]
  apply List.filterMap_congr
  intro f _
  unfold takenOf
  cases hp : f.prepare? folder 0 with
  | none => rfl
  | some p =>
    have hpath : p.1.path = f.name := congrArg InFolder.item (FileEntry.prepare?_key hp)
    rw [← hpath]
    rfl

theorem pushRecord_plays (folder : String) (hf : f.Bounded) (o : Option FileRecord) (m : Memory)
    (delta : StatsDelta) :
    (pushRecord folder f o delta).Plays m
      (.ok ((takenOf folder o (m.sequence + 1) f).map (·.1),
        (takenOf folder o (m.sequence + 1) f).elim delta fun p => delta.fold o p.1))
      { m.putAll (takenOf folder o (m.sequence + 1) f).toList with sequence := m.sequence + 1 } := by
  have hnext := plays_ask (m := m) (q := .nextSequences 1) trivial
  unfold pushRecord
  apply hnext.bind
  unfold takenOf
  cases hp : f.prepare? folder (m.sequence + 1) with
  | none => exact plays_pure _ _
  | some p =>
    rw [Option.filter_some]
    split_ifs with hs
    · have hput := Store.plays_putFile (m := { m with sequence := m.sequence + 1 })
        (FileEntry.prepare?_check hp) (hf.prepare? hp)
      simp only [Memory.answer]
      rw [if_pos hs]
      exact hput.bind (plays_pure _ _)
    · simp only [Memory.answer]
      rw [if_neg hs]
      exact plays_pure _ _

theorem pushEach_plays (folder : String) (old : Table String FileRecord)
    (hb : ∀ f ∈ files, f.Bounded) (m : Memory) (delta : StatsDelta) :
    (pushEach folder old files delta).Plays m
      (.ok ((takenEach folder old (m.sequence + 1) files).map (·.1),
        (takenEach folder old (m.sequence + 1) files).foldl
          (fun d p => d.fold (old.get? p.1.path) p.1) delta))
      { m.putAll (takenEach folder old (m.sequence + 1) files) with
        sequence := m.sequence + files.length } := by
  induction files generalizing m delta with
  | nil =>
    rw [List.length_nil, Nat.cast_zero, Int.add_zero]
    exact plays_pure _ m
  | cons f rest ih =>
    -- What the first entry brings stands before what the others bring, under the numbers behind it.
    let taken := takenOf folder (old.get? f.name) (m.sequence + 1) f
    let later := takenEach folder old (m.sequence + 1 + 1) rest
    have hdelta : (taken.toList ++ later).foldl (fun d p => d.fold (old.get? p.1.path) p.1) delta =
        later.foldl (fun d p => d.fold (old.get? p.1.path) p.1)
          (taken.elim delta fun p => delta.fold (old.get? f.name) p.1) := by
      rw [List.foldl_append]
      cases htaken : taken with
      | none => rfl
      | some p =>
        rw [← path_of_takenOf htaken]
        rfl
    have hrecords : (taken.toList ++ later).map (·.1) =
        (taken.map (·.1)).toList ++ later.map (·.1) := by
      rw [List.map_append]
      cases taken <;> rfl
    have hstate :
        { m.putAll (taken.toList ++ later) with sequence := m.sequence + (f :: rest).length } =
        { ({ m.putAll taken.toList with sequence := m.sequence + 1 } : Memory).putAll later with
          sequence := m.sequence + 1 + rest.length } := by
      have happend : m.putAll (taken.toList ++ later) = (m.putAll taken.toList).putAll later :=
        List.foldl_append
      rw [happend, Memory.putAll_withSequence (m.putAll taken.toList) (m.sequence + 1),
        List.length_cons, Nat.cast_succ, Int.add_assoc, Int.add_comm 1]
    have hfirst := pushRecord_plays folder (hb f List.mem_cons_self) (old.get? f.name) m delta
    have hrest := ih (fun g hg => hb g (List.mem_cons_of_mem _ hg))
      { m.putAll taken.toList with sequence := m.sequence + 1 }
      (taken.elim delta fun p => delta.fold (old.get? f.name) p.1)
    have heach : takenEach folder old (m.sequence + 1) (f :: rest) = taken.toList ++ later := rfl
    rw [pushEach, heach, hdelta, hrecords, hstate]
    exact hfirst.bind (hrest.bind (plays_pure _ _))

end Index

namespace Memory

theorem slot_putFile (m : Memory) (p : FileRecord × Option BlockList) (k : InFolder String) :
    (m.putFile p.1 p.2).slot k =
      if k = p.1.key then (some (p.1.withSequence 0), p.2) else m.slot k := by
  rw [slot, get?_files_putFile, get?_blocks_putFile]
  split_ifs <;> rfl

theorem slot_putAll (m : Memory) (pairs : List (FileRecord × Option BlockList))
    (k : InFolder String) :
    (m.putAll pairs).slot k = (pairs.map unnumbered).foldl
      (fun s p => if k = p.1.key then (some p.1, p.2) else s) (m.slot k) := by
  induction pairs generalizing m with
  | nil => rfl
  | cons p rest ih =>
    have hstep : m.putAll (p :: rest) = (m.putFile p.1 p.2).putAll rest := rfl
    rw [hstep, ih, slot_putFile]
    rfl

end Memory

theorem Store.coincides_of_slot {s s' : Store} {m m' : Memory} (h : s.Holds m) (h' : s'.Holds m')
    (hslot : ∀ k, m.slot k = m'.slot k) (hmarkers : m.markers = m'.markers)
    (hstats : m.stats = m'.stats) : s.Coincides s' where
  toAgrees := by
    apply Store.agrees_of_weight h h' hslot
    · exact fun k => congrArg (·.get? k) hmarkers
    · intro folder
      rw [Memory.statsOf, hstats, Memory.statsOf]
  statsRow folder := ⟨_, h.stats_eq folder, by rw [h'.stats_eq, hstats]⟩

namespace Index

theorem foldl_unnumbered (old : Table String FileRecord) (delta : StatsDelta)
    (pairs : List (FileRecord × Option BlockList)) :
    pairs.foldl (fun d p => d.fold (old.get? p.1.path) p.1) delta =
      (pairs.map unnumbered).foldl (fun d p => d.fold (old.get? p.1.path) p.1) delta := by
  rw [List.foldl_map]
  rfl

theorem map_withSequence_unnumbered (pairs : List (FileRecord × Option BlockList)) :
    (pairs.map (·.1)).map (·.withSequence 0) = (pairs.map unnumbered).map (·.1) := by
  rw [List.map_map, List.map_map]
  rfl

theorem unnumbered_brought (m : Memory) (folder : String) (files : List FileEntry) (start : Int) :
    (m.brought folder files).map unnumbered =
      (takenEach folder (m.records folder (files.map (·.name))) start (latestByPath files)).map
        unnumbered := by
  rw [unnumbered_takenEach, ← accepted_eq, Memory.brought, map_stamp _ fun _ _ => rfl, Memory.taken]

def isRefused (folder : String) (old : Option FileRecord) (f : FileEntry) : Bool :=
  (f.prepare? folder 0).all fun p => !p.1.supersedes old

theorem length_accepted (folder : String) (old : Table String FileRecord) (files : List FileEntry) :
    (latestByPath files).length = (accepted folder old files).length +
      (latestByPath files).countP fun f => isRefused folder (old.get? f.name) f := by
  rw [accepted_eq, List.length_filterMap_eq_countP,
    List.length_eq_countP_add_countP fun f => (takenOf folder (old.get? f.name) 0 f).isSome]
  congr 1
  apply List.countP_congr
  intro f _
  unfold takenOf isRefused
  cases f.prepare? folder 0 with
  | none => simp
  | some p => simp [Option.filter_some]

theorem pushRecords_singly {s : Store} (hs : s.Reachable) (hf : ∀ f ∈ files, f.Bounded)
    (folder : String) (delta : StatsDelta) :
    ∃ old records records' delta' s₁ s₂ n,
      (s.answer (.files folder (files.map (·.name)))).1 = .ok old ∧
      s.transact (pushRecords folder files old delta) = (.ok (records, delta'), s₁) ∧
      s.transact (pushEach folder old (latestByPath files) delta) = (.ok (records', delta'), s₂) ∧
      records.map (·.withSequence 0) = records'.map (·.withSequence 0) ∧
      s₁.Coincides s₂ ∧
      (s₁.answer .sequence).1 = .ok n ∧
      (s₂.answer .sequence).1 = .ok (n +
        ((latestByPath files).countP fun f => isRefused folder (old.get? f.name) f : Nat)) := by
  obtain ⟨m, hm⟩ := hs.exists_holds
  have hf' : ∀ f ∈ latestByPath files, f.Bounded := fun f hmem =>
    hf f (mem_of_newest? (mem_latestByPath.mp hmem))
  have hsame := unnumbered_brought m folder files (m.sequence + 1)
  obtain ⟨hbatch, hm₁⟩ := hm.transact_ok (pushRecords_plays_from hf delta)
  obtain ⟨heach, hm₂⟩ := hm.transact_ok
    (pushEach_plays folder (m.records folder (files.map (·.name))) hf' m delta)
  rw [foldl_unnumbered, ← hsame, ← foldl_unnumbered] at heach
  refine ⟨_, _, _, _, _, _, _, hm.files_eq folder _, Prod.ext hbatch rfl, Prod.ext heach rfl, ?_,
    ?_, hm₁.sequence_eq, ?_⟩
  · rw [map_withSequence_unnumbered, map_withSequence_unnumbered, hsame]
  · apply Store.coincides_of_slot hm₁ hm₂
    · intro k
      change (m.putAll _).slot k = (m.putAll _).slot k
      rw [Memory.slot_putAll, Memory.slot_putAll, hsame]
    · rw [Memory.written_markers, Memory.putAll_rest]
    · rw [Memory.written_stats, Memory.putAll_rest]
  · rw [hm₂.sequence_eq, length_accepted folder (m.records folder (files.map (·.name))),
      Nat.cast_add, ← Int.add_assoc]
    rfl

theorem pushRecords_singly_directories :
    let stored : FileRecord :=
      { folder := "photos", path := "winter", lastModified := ⟨30, 0⟩, kind := .directory }
    let s := ((Store.memory (.fresh 5)).transact (Query.putFile stored none).ask).2
    let files : List FileEntry :=
      [.directory "summer" 10 3, { name := "device", fileType := 2, versions := [⟨1, 1⟩] },
       .directory "winter" 20 1, .directory "summer" 5 2]
    ∃ old records records' delta s₁ s₂ n,
      s.transact (pushRecords "photos" files old ⟨"photos", {}, none⟩) =
        (.ok (records, delta), s₁) ∧
      s.transact (pushEach "photos" old (latestByPath files) ⟨"photos", {}, none⟩) =
        (.ok (records', delta), s₂) ∧
      s₁.Coincides s₂ ∧ (s₁.answer .sequence).1 = .ok n ∧
      (s₂.answer .sequence).1 = .ok (n + 2) := by
  intro stored s files
  have hcreate : Store.create .memory 5 = .ok (.memory (.fresh 5)) := rfl
  have hput : (Query.putFile stored none).ask.Asks (fun _ q => q.Storable) (.memory (.fresh 5)) :=
    ⟨⟨Nat.two_pow_pos 64, nofun⟩, trivial⟩
  have hs : s.Reachable := (Store.Reachable.created hcreate).transacted hput
  obtain ⟨old, records, records', delta, s₁, s₂, n, hold, hbatch, heach, -, hsame, hn, hn'⟩ :=
    pushRecords_singly hs (show ∀ f ∈ files, f.Bounded by decide) "photos" ⟨"photos", {}, none⟩
  have hlatest : latestByPath files =
      [{ name := "device", fileType := 2, versions := [⟨1, 1⟩] }, .directory "winter" 20 1,
       .directory "summer" 10 3] := by
    simp [files, latestByPath, List.mergeSort, List.MergeSort.Internal.splitInTwo, keepLast,
      FileEntry.directory]
  cases hold
  rw [hlatest] at hn'
  exact ⟨_, records, records', delta, s₁, s₂, n, hbatch, heach, hsame, hn, hn'⟩

end Index

end BlockExchange
