import BlockExchange.Proofs.Index.Epoch
import BlockExchange.Proofs.Index.Redelivery
import BlockExchange.Proofs.Store.Frame

namespace BlockExchange

open Transaction

namespace Index

variable {files : List FileEntry}

/-- No records are made of these entries of a message, and no other entry has the name of one. -/
structure AreUnusable (folder : String) (files : List FileEntry) (out : FileEntry → Bool) :
    Prop where
  unprepared : ∀ f ∈ files, out f → f.prepare? folder 0 = none
  apart : ∀ f ∈ files, ∀ g ∈ files, out f → g.name = f.name → out g

variable {folder : String} {peer : DeviceId} {out : FileEntry → Bool}

theorem accepted_filter (h : AreUnusable folder files out) (old : Table String FileRecord) :
    accepted folder old (files.filter (!out ·)) = accepted folder old files := by
  have hname : ∀ f ∈ files, ∀ g ∈ files, f.name = g.name → (!out f) = !out g := by
    intro f hf g hg hfg
    have hsame : out f = out g :=
      Bool.eq_iff_iff.mpr ⟨(h.apart f hf g hg · hfg.symm), (h.apart g hg f hf · hfg)⟩
    rw [hsame]
  unfold accepted
  rw [latestByPath_filter hname, List.filterMap_filter]
  congr 1
  apply List.filterMap_congr
  intro f hf
  cases hout : out f with
  | false => rfl
  | true => exact (h.unprepared f (mem_of_newest? (mem_latestByPath.mp hf)) hout).symm

theorem pushRecords_filter (h : AreUnusable folder files out) (m : Memory) (delta : StatsDelta) :
    pushRecords folder (files.filter (!out ·))
        (m.records folder ((files.filter (!out ·)).map (·.name))) delta =
      pushRecords folder files (m.records folder (files.map (·.name))) delta := by
  have hsame : ∀ f ∈ files.filter (!out ·),
      (m.records folder ((files.filter (!out ·)).map (·.name))).get? f.name =
        (m.records folder (files.map (·.name))).get? f.name := by
    intro f hf
    have hmem : f.name ∈ files.map (·.name) := List.mem_map_of_mem (List.mem_filter.mp hf).1
    rw [Memory.get?_records, Memory.get?_records, if_pos (List.mem_map_of_mem hf), if_pos hmem]
  apply pushRecords_congr
  · rw [accepted_congr hsame, accepted_filter h]
  · intro q hq
    rw [← accepted_filter h] at hq
    obtain ⟨f, hf, hname⟩ := exists_of_mem_accepted hq
    rw [← hname, hsame f hf]

def takeOn (marker : Marker) (folder : String) (updated : List FileRecord) (delta : StatsDelta)
    (newest? : Option Int) : Transaction StoreError Received := do
  let marker ← match newest? with
    | none => pure marker
    | some newest => do
      flush delta
      advance marker newest
  let stats ← (Query.stats folder).ask
  return ⟨marker, updated, stats.getD { folder }⟩

theorem takeIn_eq (marker : Marker) (folder : String) (files : List FileEntry) :
    takeIn marker folder files = (do
      let old ← (Query.files folder (files.map (·.name))).ask
      let (updated, delta) ← pushRecords folder files old { folder }
      takeOn marker folder updated delta (files.map (·.sequence.toInt)).max?) :=
  rfl

inductive EndsAlike {ε : Type} : Except ε Received × Store → Except ε Received × Store → Prop
  | error (e : ε) (s : Store) : EndsAlike (.error e, s) (.error e, s)
  | ok {r r' : Received} {s s' : Store} (updated : r'.updated = r.updated)
      (stats : r'.stats = r.stats) (store : s.Remarked s') : EndsAlike (.ok r, s) (.ok r', s')

namespace EndsAlike

variable {ε ε' : Type} {t t' : Transaction ε Received} {s : Store}

theorem mapError (h : EndsAlike (t.run Store.answer s) (t'.run Store.answer s)) (f : ε → ε') :
    EndsAlike ((t.mapError f).run Store.answer s) ((t'.mapError f).run Store.answer s) := by
  rw [run_mapError, run_mapError]
  generalize t.run Store.answer s = o at h
  generalize t'.run Store.answer s = o' at h
  cases h with
  | error e s' => exact .error (f e) s'
  | ok updated stats store => exact .ok updated stats store

theorem transact (h : EndsAlike (t.run Store.answer s) (t'.run Store.answer s)) :
    EndsAlike (s.transact t) (s.transact t') := by
  unfold Store.transact commit
  generalize t.run Store.answer s = o at h
  generalize t'.run Store.answer s = o' at h
  cases h with
  | error e s' => exact .error e s
  | ok updated stats store => exact .ok updated stats store

end EndsAlike

theorem advance_run (marker : Marker) (newest : Int) (s : Store) :
    ∃ marker' s', (advance marker newest).run Store.answer s = (.ok marker', s') ∧
      s.Remarked s' := by
  unfold advance
  split_ifs
  · exact ⟨marker, s, rfl, .refl s⟩
  · let moved := { marker with localSequence := newest }
    have hput : (Query.putMarker moved).ask.run Store.answer s =
        (.ok (), (s.answer (.putMarker moved)).2) := by
      rw [run_ask]
      cases s <;> rfl
    exact ⟨moved, _, run_bind_ok hput, s.remarked_answer (q := .putMarker moved) trivial⟩

theorem statsAnswer_remarked (s : Store) (folder : String) :
    ∃ c, ∀ s', s.Remarked s' →
      (Query.stats folder).ask.run Store.answer s' = (.ok c, s') := by
  cases s with
  | memory m =>
    refine ⟨m.stats.get? folder, ?_⟩
    rintro _ ⟨⟩
    exact run_ask _ _
  | database versions tables durable =>
    refine ⟨tables.statsOf folder, ?_⟩
    rintro _ ⟨⟩
    exact run_ask _ _

section

variable {marker : Marker} {updated : List FileRecord} {delta : StatsDelta} {newest? : Option Int}
  {s s₀ : Store}

theorem flush_run_of_isEmpty (h : delta.isEmpty) (s : Store) :
    (flush delta).run Store.answer s = (.ok (), s) := by
  unfold flush
  rw [if_pos h]
  rfl

theorem takeOn_error {e : StoreError} (hflush : (flush delta).run Store.answer s = (.error e, s₀))
    (hnone : newest? = none → delta.isEmpty) :
    (takeOn marker folder updated delta newest?).run Store.answer s = (.error e, s₀) := by
  cases newest? with
  | none =>
    rw [flush_run_of_isEmpty (hnone rfl)] at hflush
    cases hflush
  | some newest => exact run_bind_error hflush

theorem takeOn_ok (hflush : (flush delta).run Store.answer s = (.ok (), s₀))
    (hnone : newest? = none → delta.isEmpty) {c : Option FolderStats}
    (hstats : ∀ s', s₀.Remarked s' →
      (Query.stats folder).ask.run Store.answer s' = (.ok c, s')) :
    ∃ marker' s₁, (takeOn marker folder updated delta newest?).run Store.answer s =
      (.ok ⟨marker', updated, c.getD { folder }⟩, s₁) ∧ s₀.Remarked s₁ := by
  cases newest? with
  | none =>
    rw [flush_run_of_isEmpty (hnone rfl)] at hflush
    obtain rfl : s = s₀ := (Prod.mk.inj hflush).2
    exact ⟨marker, s, run_bind_ok (hstats s (.refl s)), .refl s⟩
  | some newest =>
    obtain ⟨marker', s₁, hadvance, hmarked⟩ := advance_run marker newest s₀
    refine ⟨marker', s₁, ?_, hmarked⟩
    exact (run_bind_ok hflush).trans
      ((run_bind_ok hadvance).trans (run_bind_ok (hstats s₁ hmarked)))

theorem takeOn_endsAlike {other? : Option Int} (hnone : newest? = none → delta.isEmpty)
    (hnone' : other? = none → delta.isEmpty) :
    EndsAlike ((takeOn marker folder updated delta newest?).run Store.answer s)
      ((takeOn marker folder updated delta other?).run Store.answer s) := by
  cases hflush : (flush delta).run Store.answer s with
  | mk reply s₀ =>
    cases reply with
    | error e =>
      rw [takeOn_error hflush hnone, takeOn_error hflush hnone']
      exact .error e s₀
    | ok _ =>
      obtain ⟨c, hstats⟩ := statsAnswer_remarked s₀ folder
      obtain ⟨_, s₁, hrun, hmarked⟩ := takeOn_ok hflush hnone hstats
      obtain ⟨_, s₂, hrun', hmarked'⟩ := takeOn_ok hflush hnone' hstats
      rw [hrun, hrun']
      exact .ok rfl rfl (hmarked.symm.trans hmarked')

end

theorem pushRecords_nil_run {old : Table String FileRecord} {delta : StatsDelta} {s s₁ : Store}
    {updated : List FileRecord}
    (h : (pushRecords folder [] old { folder }).run Store.answer s = (.ok (updated, delta), s₁)) :
    delta.isEmpty := by
  have haccepted : accepted folder old [] = [] := by simp [accepted, latestByPath, keepLast]
  unfold pushRecords at h
  rw [haccepted] at h
  obtain ⟨_, _, -, h⟩ := run_bind_eq_ok h
  obtain ⟨_, _, -, h⟩ := run_bind_eq_ok h
  cases h
  rfl

theorem takeIn_filter {s : Store} {m : Memory} (hs : s.Holds m) (h : AreUnusable folder files out)
    (marker : Marker) :
    EndsAlike ((takeIn marker folder files).run Store.answer s)
      ((takeIn marker folder (files.filter (!out ·))).run Store.answer s) := by
  have hpush := pushRecords_filter h m { folder }
  rw [takeIn_eq, takeIn_eq, run_bind_ok (hs.search_run folder _),
    run_bind_ok (hs.search_run folder _), hpush, run_bind, run_bind]
  cases hrun : (pushRecords folder files (m.records folder (files.map (·.name))) { folder }).run
      Store.answer s with
  | mk reply s₁ =>
    cases reply with
    | error e => exact .error e s₁
    | ok known =>
      obtain ⟨updated, delta⟩ := known
      -- Where no entries are left, no records have come in, and there is nothing to be flushed.
      apply takeOn_endsAlike
      · intro hmax
        have hnil : files = [] := List.map_eq_nil_iff.mp (List.max?_eq_none_iff.mp hmax)
        subst hnil
        exact pushRecords_nil_run hrun
      · intro hmax
        have hnil : files.filter (!out ·) = [] :=
          List.map_eq_nil_iff.mp (List.max?_eq_none_iff.mp hmax)
        rw [← hpush, hnil] at hrun
        exact pushRecords_nil_run hrun

theorem receive_filter {s : Store} (hs : s.Reachable) (h : AreUnusable folder files out) :
    EndsAlike (s.transact (receive folder peer files))
      (s.transact (receive folder peer (files.filter (!out ·)))) := by
  obtain ⟨m, hm⟩ := hs.exists_holds
  apply EndsAlike.transact
  rcases receive_run_cases folder peer s with ⟨e, hunknown⟩ | ⟨marker, hknown⟩
  · rw [hunknown, hunknown]
    exact .error e s
  · rw [hknown, hknown]
    exact (takeIn_filter hm h marker).mapError _

def MovesMarker (s : Store) (folder : String) (peer : DeviceId) (files : List FileEntry)
    (r : Received) (s' : Store) : Prop :=
  ∃ known, (s.answer (.marker folder peer)).1 = .ok (some known) ∧
    r.marker = { known with
      localSequence := (files.map (·.sequence.toInt)).foldl max known.localSequence } ∧
    ∀ f d, (s'.answer (.marker f d)).1 =
      if f = folder ∧ d = peer then .ok (some r.marker) else (s.answer (.marker f d)).1

theorem movesMarker_receive {s s' : Store} {r : Received} (hs : s.Reachable)
    (hf : ∀ f ∈ files, f.Bounded) (hr : s.transact (receive folder peer files) = (.ok r, s')) :
    MovesMarker s folder peer files r s' := by
  obtain ⟨m, hm⟩ := hs.exists_holds
  obtain ⟨known, hk, -, rfl, hm'⟩ := holds_receive hm hf hr
  have hkey : known.key = ⟨folder, peer⟩ := hm.keyed.markers.key_of_get? hk
  refine ⟨known, by rw [hm.marker_eq, hk], ?_, ?_⟩
  · rw [← Memory.elim_max?_upTo, Memory.received, Memory.advanced]
    cases (files.map (·.sequence.toInt)).max? <;> rfl
  · intro f d
    rw [hm'.marker_eq, Memory.get?_markers_merged (hkey ▸ hk), hkey, hm.marker_eq]
    simp only [InFolder.mk.injEq]
    split_ifs <;> rfl

/-- Entries that cannot be represented, under names that no other entry has, may as well be left out.
With and without them a message fails with the same error and leaves the store, or it brings the same
records under the same numbers and ends with the same statistics, in stores that differ in nothing
but markers. Each of the two moves its peer's marker up to the greatest of all its numbers. -/
theorem receive_unusable {s : Store} (hs : s.Reachable) (hf : ∀ f ∈ files, f.Bounded)
    (h : AreUnusable folder files out) (peer : DeviceId) :
    let usable := files.filter (!out ·)
    EndsAlike (s.transact (receive folder peer files)) (s.transact (receive folder peer usable)) ∧
      (∀ r s', s.transact (receive folder peer files) = (.ok r, s') →
        MovesMarker s folder peer files r s') ∧
      ∀ r s', s.transact (receive folder peer usable) = (.ok r, s') →
        MovesMarker s folder peer usable r s' := by
  intro usable
  have hf' : ∀ f ∈ usable, f.Bounded := fun f hmem => hf f (List.mem_filter.mp hmem).1
  exact ⟨receive_filter hs h, fun _ _ => movesMarker_receive hs hf,
    fun _ _ => movesMarker_receive hs hf'⟩

theorem receive_unusable_folder :
    let s : Store := .knowing ⟨"photos", .zero, 7, 0, 9⟩
    let files : List FileEntry :=
      [{ name := "device", fileType := 2, versions := [⟨1, 1⟩], sequence := 9 },
       .directory "summer" 10 1]
    ∃ r s₁ r' s₂, s.transact (receive "photos" .zero files) = (.ok r, s₁) ∧
      s.transact (receive "photos" .zero [.directory "summer" 10 1]) = (.ok r', s₂) ∧
      r'.updated = r.updated ∧ s₁.Remarked s₂ ∧
      r.marker.localSequence = 9 ∧ r'.marker.localSequence = 1 := by
  intro s files
  have hs : s.Reachable := Store.reachable_knowing _
  have hunusable : AreUnusable "photos" files (·.name = "device") := ⟨by decide +kernel, by decide⟩
  obtain ⟨halike, hmoved, hmoved'⟩ := receive_unusable hs (by decide) hunusable .zero
  have hrest : files.filter (fun f => !decide (f.name = "device")) =
      [.directory "summer" 10 1] := rfl
  have hok : (s.transact (receive "photos" .zero [.directory "summer" 10 1])).1.isOk = true := by
    decide +kernel
  rw [hrest] at halike hmoved'
  generalize s.transact (receive "photos" .zero files) = o at halike hmoved
  generalize s.transact (receive "photos" .zero [.directory "summer" 10 1]) = o' at *
  cases halike with
  | error e => cases hok
  | @ok r r' s₁ s₂ updated stats store =>
    obtain ⟨known, hknown, hmarker, -⟩ := hmoved r s₁ rfl
    obtain ⟨known', hknown', hmarker', -⟩ := hmoved' r' s₂ rfl
    cases hknown
    cases hknown'
    refine ⟨r, s₁, r', s₂, rfl, rfl, updated, store, ?_, ?_⟩
    · rw [hmarker]
      rfl
    · rw [hmarker']
      rfl

end Index

end BlockExchange
