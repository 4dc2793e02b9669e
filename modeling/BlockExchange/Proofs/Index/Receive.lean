import BlockExchange.Index.Receive
import BlockExchange.Proofs.Index.StatsDelta
import BlockExchange.Proofs.Index.Taken
import BlockExchange.Proofs.Store.PutFiles
import BlockExchange.Proofs.Store.Reading
/-!
What one message does to a memory: `receive_plays_ok` and `receive_plays_error`. The memory behind
the message is `Memory.merged`.
-/

namespace BlockExchange

open Transaction Index

def Marker.upTo (marker : Marker) (sequence : Int) : Marker :=
  { marker with localSequence := max marker.localSequence sequence }

namespace Memory

def delta (m : Memory) (folder : String) (files : List FileEntry) : StatsDelta :=
  (m.brought folder files).foldl (fun d p => d.fold (m.files.get? p.1.key) p.1) { folder }

def shifted (m : Memory) (folder : String) (files : List FileEntry) : FolderStats :=
  (m.statsOf folder).shift (m.delta folder files).change

def touched (m : Memory) (folder : String) (files : List FileEntry) : FolderStats :=
  let s := m.shifted folder files
  match (m.delta folder files).lastModified with
  | some time => { s with lastUpdate := max s.lastUpdate time.toMillis }
  | none => s

def advanced (marker : Marker) (files : List FileEntry) : Marker :=
  match (files.map (·.sequence.toInt)).max? with
  | some newest => marker.upTo newest
  | none => marker

def written (m : Memory) (folder : String) (files : List FileEntry) : Memory :=
  { m.putAll (m.brought folder files) with
    sequence := m.sequence + (m.taken folder files).length }

def merged (m : Memory) (marker : Marker) (folder : String) (files : List FileEntry) : Memory :=
  { m.written folder files with
    stats :=
      if (m.taken folder files).isEmpty then m.stats
      else m.stats.insert folder (m.touched folder files)
    markers :=
      if (advanced marker files).localSequence ≤ marker.localSequence then m.markers
      else m.markers.insert marker.key (advanced marker files) }

def announcing (m : Memory) (folder : String) (peer : DeviceId) (indexId : UInt64)
    (maxSequence : Int) : Memory :=
  { m with
    markers := m.markers.insert ⟨folder, peer⟩
      (announced folder peer indexId maxSequence (m.markers.get? ⟨folder, peer⟩)) }

def received (m : Memory) (marker : Marker) (folder : String) (files : List FileEntry) :
    Index.Received :=
  ⟨advanced marker files, (m.brought folder files).map (·.1),
    (m.merged marker folder files).statsOf folder⟩

def Admits (m : Memory) (folder : String) (files : List FileEntry) : Prop :=
  m.taken folder files = [] ∨ (m.shifted folder files).isNonNegative

variable {m : Memory} {marker : Marker} {folder : String} {files : List FileEntry}

theorem putAll_withSequence (m : Memory) (n : Int)
    (pairs : List (FileRecord × Option BlockList)) :
    ({ m with sequence := n } : Memory).putAll pairs = { m.putAll pairs with sequence := n } := by
  induction pairs generalizing m with
  | nil => rfl
  | cons p rest ih => exact ih (m.putFile p.1 p.2)

theorem written_stats (m : Memory) (folder : String) (files : List FileEntry) :
    (m.written folder files).stats = m.stats := by
  rw [written, putAll_rest]

theorem written_markers (m : Memory) (folder : String) (files : List FileEntry) :
    (m.written folder files).markers = m.markers := by
  rw [written, putAll_rest]

theorem delta_folder (m : Memory) (folder : String) (files : List FileEntry) :
    (m.delta folder files).folder = folder :=
  StatsDelta.folder_foldl _ _

theorem shift_written (m : Memory) (folder : String) (files : List FileEntry) :
    ((m.written folder files).statsOf (m.delta folder files).folder).shift
      (m.delta folder files).change = m.shifted folder files := by
  rw [statsOf, written_stats, delta_folder]
  rfl

theorem brought_eq_nil_iff : m.brought folder files = [] ↔ m.taken folder files = [] := by
  rw [brought]
  cases m.taken folder files <;> simp [stamp]

theorem delta_of_taken_nil (h : m.taken folder files = []) : m.delta folder files = { folder } := by
  rw [delta, brought_eq_nil_iff.mpr h, List.foldl_nil]

theorem exists_lastModified_delta (h : m.taken folder files ≠ []) :
    ∃ time, (m.delta folder files).lastModified = some time := by
  have hb : m.brought folder files ≠ [] := fun hnil => h (brought_eq_nil_iff.mp hnil)
  rw [delta, StatsDelta.lastModified_foldl, List.getLast?_eq_some_getLast hb]
  exact ⟨_, rfl⟩

theorem taken_nil : m.taken folder [] = [] := by
  simp [taken, accepted, latestByPath, keepLast]

theorem merged_nil : m.merged marker folder [] = m.written folder [] := by
  have hadv : advanced marker [] = marker := rfl
  rw [merged, hadv, if_pos (Int.le_refl _), taken_nil, ← m.written_stats folder [],
    ← m.written_markers folder []]
  rfl

theorem path_mem_of_brought {p : FileRecord × Option BlockList} (h : p ∈ m.brought folder files) :
    p.1.path ∈ files.map (·.name) := by
  obtain ⟨path, q, n, hq, rfl⟩ := exists_of_mem_brought h
  have hpath : q.1.path = path := congrArg InFolder.item (taken?_key hq)
  by_contra hnot
  have hnone := offered?_eq_none folder (hpath ▸ hnot)
  rw [(taken?_eq_some_iff.mp hq).1] at hnone
  cases hnone

end Memory

namespace Index

variable {m : Memory} {marker : Marker} {folder : String} {files : List FileEntry}

theorem pushRecords_plays_from (hb : ∀ f ∈ files, f.Bounded) (delta : StatsDelta) :
    (pushRecords folder files (m.records folder (files.map (·.name))) delta).Plays m
      (.ok ((m.brought folder files).map (·.1), (m.brought folder files).foldl
        (fun d p => d.fold ((m.records folder (files.map (·.name))).get? p.1.path) p.1) delta))
      (m.written folder files) := by
  have hput := Store.putFiles_plays
    (m := { m with sequence := m.sequence + (m.taken folder files).length })
    (Memory.nodup_brought m folder files) (fun p hp => Memory.brought_check hp)
    (fun p hp => Memory.brought_storable hb hp)
  rw [Memory.putAll_withSequence] at hput
  have hnext := plays_ask (m := m) (q := .nextSequences (m.taken folder files).length) trivial
  apply hnext.bind
  apply hput.bind
  rw [List.foldl_map]
  exact plays_pure _ _

theorem pushRecords_plays (hb : ∀ f ∈ files, f.Bounded) :
    (pushRecords folder files (m.records folder (files.map (·.name))) { folder }).Plays m
      (.ok ((m.brought folder files).map (·.1), m.delta folder files))
      (m.written folder files) := by
  -- All paths that come in were searched for, so the search is as good as the store.
  have hdelta : (m.brought folder files).foldl
      (fun d p => d.fold ((m.records folder (files.map (·.name))).get? p.1.path) p.1) { folder } =
      m.delta folder files := by
    apply List.foldl_ext _ _ _
    intro d p hp
    rw [Memory.get?_records, if_pos (Memory.path_mem_of_brought hp), Memory.brought_key hp]
  rw [← hdelta]
  exact pushRecords_plays_from hb { folder }

theorem flush_plays_nothing {d : StatsDelta} (h : d.isEmpty) : (flush d).Plays m (.ok ()) m := by
  unfold flush
  rw [if_pos h]
  exact plays_pure () m

theorem flush_plays_error {d : StatsDelta} {time : Timestamp} (ht : d.lastModified = some time)
    (hn : ((m.statsOf d.folder).shift d.change).isNonNegative = false) :
    (flush d).Plays m (.error (.negativeStats ((m.statsOf d.folder).shift d.change))) m := by
  have hempty : ¬d.isEmpty := by simp [StatsDelta.isEmpty, ht]
  have hadd := plays_ask (m := m) (q := .addStats d.folder d.change) trivial
  simp only [Memory.answer, Store.checkStats, hn] at hadd
  unfold flush
  rw [if_neg hempty]
  exact hadd.bind_error

theorem flush_plays_ok {d : StatsDelta} {time : Timestamp} (ht : d.lastModified = some time)
    (hn : ((m.statsOf d.folder).shift d.change).isNonNegative) :
    (flush d).Plays m (.ok ()) { m with
      stats := m.stats.insert d.folder { (m.statsOf d.folder).shift d.change with
        lastUpdate := max ((m.statsOf d.folder).shift d.change).lastUpdate time.toMillis } } := by
  have hempty : ¬d.isEmpty := by simp [StatsDelta.isEmpty, ht]
  have hadd := plays_ask (m := m) (q := .addStats d.folder d.change) trivial
  simp only [Memory.answer, Store.checkStats, hn, if_true] at hadd
  have hget : (m.stats.insert d.folder ((m.statsOf d.folder).shift d.change)).get? d.folder =
      some ((m.statsOf d.folder).shift d.change) := by
    rw [Table.get?_insert, if_pos rfl]
  have htouch := plays_ask (q := .touchStats d.folder time.toMillis)
    (m := { m with stats := m.stats.insert d.folder ((m.statsOf d.folder).shift d.change) })
    (Option.isSome_of_eq_some hget)
  simp only [Memory.answer, Memory.statsOf] at htouch hget
  rw [hget, Option.getD_some, Table.insert_insert] at htouch
  unfold flush
  rw [if_neg hempty, ht]
  exact hadd.bind htouch

theorem advance_plays (marker : Marker) (m : Memory) (newest : Int) :
    (advance marker newest).Plays m (.ok (marker.upTo newest))
      { m with
        markers :=
          if (marker.upTo newest).localSequence ≤ marker.localSequence then m.markers
          else m.markers.insert marker.key (marker.upTo newest) } := by
  unfold advance Marker.upTo
  by_cases hle : newest ≤ marker.localSequence
  · simp only [hle, max_eq_left, le_refl, if_true]
    exact plays_pure marker m
  · have hlt : marker.localSequence ≤ newest := Int.le_of_not_le hle
    simp only [max_eq_right hlt, hle, if_false]
    have hput := plays_putMarker m { marker with localSequence := newest }
    exact hput.bind (plays_pure _ _)

theorem flush_delta_plays_ok (h : m.Admits folder files) :
    (flush (m.delta folder files)).Plays (m.written folder files) (.ok ())
      { m.written folder files with
        stats :=
          if (m.taken folder files).isEmpty then m.stats
          else m.stats.insert folder (m.touched folder files) } := by
  have hstats := m.written_stats folder files
  by_cases htaken : m.taken folder files = []
  · have hplay := flush_plays_nothing (m := m.written folder files) (d := m.delta folder files)
      (by rw [Memory.delta_of_taken_nil htaken]; rfl)
    rw [if_pos (by rw [htaken]; rfl), ← hstats]
    exact hplay
  · obtain ⟨time, ht⟩ := Memory.exists_lastModified_delta htaken
    have hshift := m.shift_written folder files
    have hplay := flush_plays_ok (m := m.written folder files) ht
      (hshift ▸ h.resolve_left htaken)
    rw [hshift, hstats, Memory.delta_folder] at hplay
    rw [if_neg (by simpa using htaken), Memory.touched, ht]
    exact hplay

theorem takeIn_plays_ok (hb : ∀ f ∈ files, f.Bounded) (h : m.Admits folder files) :
    (takeIn marker folder files).Plays m (.ok (m.received marker folder files))
      (m.merged marker folder files) := by
  unfold takeIn
  apply (plays_files m folder _).bind
  apply (pushRecords_plays hb).bind
  cases hmax : (files.map (·.sequence.toInt)).max? with
  | none =>
    -- A message without entries moves neither statistics nor marker.
    have hnil : files = [] := by simpa [List.max?_eq_none_iff] using hmax
    subst hnil
    rw [Memory.received, Memory.merged_nil]
    exact (plays_pure marker _).bind ((plays_stats _ folder).bind (plays_pure _ _))
  | some newest =>
    have hadv : Memory.advanced marker files = marker.upTo newest := by rw [Memory.advanced, hmax]
    have hmove := advance_plays marker { m.written folder files with
      stats :=
        if (m.taken folder files).isEmpty then m.stats
        else m.stats.insert folder (m.touched folder files) } newest
    rw [m.written_markers folder files, ← hadv] at hmove
    exact (flush_delta_plays_ok h).bind (hmove.bind ((plays_stats _ folder).bind (plays_pure _ _)))

theorem takeIn_plays_error (hb : ∀ f ∈ files, f.Bounded) (h : ¬m.Admits folder files) :
    (takeIn marker folder files).Plays m (.error (.negativeStats (m.shifted folder files)))
      (m.written folder files) := by
  obtain ⟨htaken, hneg⟩ := not_or.mp h
  obtain ⟨time, ht⟩ := Memory.exists_lastModified_delta htaken
  have hshift := m.shift_written folder files
  have hflush := flush_plays_error (m := m.written folder files) ht (by simpa [hshift] using hneg)
  rw [hshift] at hflush
  unfold takeIn
  apply (plays_files m folder _).bind
  apply (pushRecords_plays hb).bind
  cases hmax : (files.map (·.sequence.toInt)).max? with
  | none =>
    have hnil : files = [] := by simpa [List.max?_eq_none_iff] using hmax
    subst hnil
    exact absurd Memory.taken_nil htaken
  | some newest => exact hflush.bind_error

theorem findMarker_plays_ok {peer : DeviceId} (h : m.markers.get? ⟨folder, peer⟩ = some marker) :
    (findMarker folder peer).Plays m (.ok marker) m := by
  have hask := plays_marker m folder peer
  rw [h] at hask
  exact (hask.mapError ExchangeError.store).bind (plays_pure marker m)

theorem findMarker_plays_error {peer : DeviceId} (h : m.markers.get? ⟨folder, peer⟩ = none) :
    (findMarker folder peer).Plays m (.error (.noMarker peer folder)) m := by
  have hask := plays_marker m folder peer
  rw [h] at hask
  exact (hask.mapError ExchangeError.store).bind (plays_fail _ m)

theorem receive_run_cases (folder : String) (peer : DeviceId) (s : Store) :
    (∃ e, ∀ files, (receive folder peer files).run Store.answer s = (.error e, s)) ∨
      ∃ marker, ∀ files, (receive folder peer files).run Store.answer s =
        ((takeIn marker folder files).mapError ExchangeError.store).run Store.answer s := by
  have hreading : (findMarker folder peer).IsReading := by
    apply ((Transaction.isReading_ask (.marker folder peer) trivial).mapError _).bind
    rintro (_ | _) <;> trivial
  have hstore := Store.run_of_isReading hreading s
  cases hrun : (findMarker folder peer).run Store.answer s with
  | mk reply s' =>
    rw [hrun] at hstore
    obtain rfl : s' = s := hstore
    cases reply with
    | error e => exact .inl ⟨e, fun _ => run_bind_error hrun⟩
    | ok marker => exact .inr ⟨marker, fun _ => run_bind_ok hrun⟩

variable {peer : DeviceId}

theorem receive_plays_noMarker (h : m.markers.get? ⟨folder, peer⟩ = none) :
    (receive folder peer files).Plays m (.error (.noMarker peer folder)) m :=
  (findMarker_plays_error h).bind_error

theorem receive_plays_ok (hb : ∀ f ∈ files, f.Bounded)
    (hk : m.markers.get? ⟨folder, peer⟩ = some marker) (h : m.Admits folder files) :
    (receive folder peer files).Plays m (.ok (m.received marker folder files))
      (m.merged marker folder files) :=
  (findMarker_plays_ok hk).bind ((takeIn_plays_ok hb h).mapError ExchangeError.store)

theorem receive_plays_error (hb : ∀ f ∈ files, f.Bounded)
    (hk : m.markers.get? ⟨folder, peer⟩ = some marker) (h : ¬m.Admits folder files) :
    (receive folder peer files).Plays m
      (.error (.store (.negativeStats (m.shifted folder files)))) (m.written folder files) :=
  (findMarker_plays_ok hk).bind ((takeIn_plays_error hb h).mapError ExchangeError.store)

theorem announced_key (indexId : UInt64) (maxSequence : Int) {k : Option Marker}
    (h : ∀ known ∈ k, known.key = ⟨folder, peer⟩) :
    (announced folder peer indexId maxSequence k).key = ⟨folder, peer⟩ := by
  cases k with
  | none => rfl
  | some known =>
    by_cases hid : known.indexId = indexId
    · simp only [announced, hid, if_true]
      exact h known rfl
    · simp only [announced, hid, if_false]
      rfl

theorem announce_plays (hm : m.IsWellKeyed) (indexId : UInt64) (maxSequence : Int) :
    (announce folder peer indexId maxSequence).Plays m
      (.ok (announced folder peer indexId maxSequence (m.markers.get? ⟨folder, peer⟩)))
      (m.announcing folder peer indexId maxSequence) := by
  have hkey := announced_key indexId maxSequence (k := m.markers.get? ⟨folder, peer⟩)
    fun known hk => hm.markers.key_of_get? hk
  have hput := plays_putMarker m
    (announced folder peer indexId maxSequence (m.markers.get? ⟨folder, peer⟩))
  rw [hkey] at hput
  exact ((plays_marker m folder peer).mapError ExchangeError.store).bind
    ((hput.mapError ExchangeError.store).bind (plays_pure _ _))

end Index

end BlockExchange
