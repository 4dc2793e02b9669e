import BlockExchange.Proofs.Index.Redelivery
/-!
The feed as a log of the index. A subscriber that is there from the start and loses nothing is told of
each message that brings something, with the marker and the statistics behind it, and of nothing else.
The records that it is told of, laid over one another, are those of the index (`Index.replay_eq_records`).
-/

namespace BlockExchange

namespace Feed

variable {f : Feed} {e : IndexEvent}

theorem publish_of_lost (h : (f.publish e).lost = 0) :
    (f.publish e).events = f.events ++ [e] := by
  simp only [publish] at h ⊢
  rw [(Nat.add_eq_zero_iff.mp h).2, List.drop_zero]

end Feed

namespace Index

inductive Turn where
  | operation (o : Operation)
  | reading (count : Nat)

namespace Turn

def Bounded : Turn → Prop
  | operation o => o.Bounded
  | reading _ => True

instance (turn : Turn) : Decidable turn.Bounded :=
  match turn with
  | operation o => inferInstanceAs (Decidable o.Bounded)
  | reading _ => isTrue trivial

def isClearing : Turn → Bool
  | operation o => o.isClearing
  | reading _ => false

def perform (i : Index) : Turn → Index
  | operation o => i.perform o
  | reading count => { i with feed := { events := i.feed.events.drop count } }

def read (i : Index) : Turn → List IndexEvent
  | operation _ => []
  | reading count => i.feed.events.take count

end Turn

def follow (i : Index) (turns : List Turn) : Index :=
  turns.foldl Turn.perform i

def heard : List Turn → Index → List IndexEvent
  | [], i => i.feed.events
  | turn :: rest, i => turn.read i ++ heard rest (turn.perform i)

def KeepsUp : List Turn → Index → Prop
  | [], i => i.feed.lost = 0
  | turn :: rest, i => i.feed.lost = 0 ∧ KeepsUp rest (turn.perform i)

instance KeepsUp.decidable : (turns : List Turn) → (i : Index) → Decidable (KeepsUp turns i)
  | [], i => inferInstanceAs (Decidable (i.feed.lost = 0))
  | turn :: rest, i =>
    have := decidable rest (turn.perform i)
    inferInstanceAs (Decidable (i.feed.lost = 0 ∧ _))

structure Brings (i : Index) (folder : String) (peer : DeviceId) (files : List FileEntry)
    (r : Received) : Prop where
  taken : (i.receiveMessage folder peer files).1 = .ok r
  nonempty : r.updated ≠ []
  marker : ((i.receiveMessage folder peer files).2.store.answer (.marker folder peer)).1 =
    .ok (some r.marker)
  stats : ((i.receiveMessage folder peer files).2.store.answer (.stats folder)).1 =
    .ok (some r.stats)

def IsSilent (i : Index) (turn : Turn) : Prop :=
  ∀ folder peer files, turn = .operation (.message folder peer files) →
    ∀ r, (i.receiveMessage folder peer files).1 = .ok r → r.updated = []

/-- The events that tell of a run: one for each message that brings something. -/
inductive Tells : List Turn → Index → List IndexEvent → Prop
  | nil (i : Index) : Tells [] i []
  | message {i : Index} {folder : String} {peer : DeviceId} {files : List FileEntry} {r : Received}
      {rest : List Turn} {events : List IndexEvent} (h : i.Brings folder peer files r)
      (hrest : Tells rest (i.receiveMessage folder peer files).2 events) :
      Tells (.operation (.message folder peer files) :: rest) i
        (⟨folder, peer, r.updated, r.marker, r.stats⟩ :: events)
  | silent {i : Index} {turn : Turn} {rest : List Turn} {events : List IndexEvent}
      (h : i.IsSilent turn) (hrest : Tells rest (turn.perform i) events) :
      Tells (turn :: rest) i events

def overlay (known : Table (InFolder String) FileRecord) (e : IndexEvent) :
    Table (InFolder String) FileRecord :=
  e.files.foldl (fun known r => known.insert ⟨e.folder, r.path⟩ r) known

def replay (events : List IndexEvent) : Table (InFolder String) FileRecord :=
  events.foldl overlay ∅

end Index

open Index

namespace Memory

variable {m : Memory} {marker : Marker} {folder : String} {peer : DeviceId} {files : List FileEntry}

theorem files_putAll (m : Memory) (pairs : List (FileRecord × Option BlockList)) :
    (m.putAll pairs).files =
      (pairs.map (·.1)).foldl (fun known r => known.insert r.key r) m.files := by
  induction pairs generalizing m with
  | nil => rfl
  | cons p rest ih => exact ih (m.putFile p.1 p.2)

theorem files_merged (m : Memory) (marker : Marker) (folder : String) (peer : DeviceId)
    (files : List FileEntry) :
    (m.merged marker folder files).files = overlay m.files
      ⟨folder, peer, (m.received marker folder files).updated,
        (m.received marker folder files).marker, (m.received marker folder files).stats⟩ := by
  have hfiles : (m.merged marker folder files).files = (m.putAll (m.brought folder files)).files := rfl
  rw [hfiles, files_putAll, overlay]
  apply List.foldl_ext
  intro known r hr
  obtain ⟨p, hp, rfl⟩ := List.mem_map.mp hr
  rw [brought_key hp]

theorem files_merged_of_nil (h : (m.received marker folder files).updated = []) :
    (m.merged marker folder files).files = m.files := by
  rw [files_merged m marker folder marker.device, h]
  rfl

end Memory

namespace Index

variable {i : Index} {m : Memory} {folder : String} {peer : DeviceId} {files : List FileEntry}
  {r : Received}

theorem brings_of_taken (h : i.store.Holds m) (hf : ∀ f ∈ files, f.Bounded)
    (hr : (i.receiveMessage folder peer files).1 = .ok r) (hsome : r.updated ≠ []) :
    i.Brings folder peer files r := by
  obtain ⟨marker, hk, rfl, hafter⟩ := holds_taken h hf hr
  have hkey : marker.key = ⟨folder, peer⟩ := h.keyed.markers.key_of_get? hk
  have htaken : m.taken folder files ≠ [] := by
    rwa [Memory.received, ne_eq, List.map_eq_nil_iff, Memory.brought_eq_nil_iff] at hsome
  refine ⟨hr, hsome, ?_, ?_⟩
  · rw [hafter.marker_eq, ← hkey, Memory.get?_markers_merged (hkey ▸ hk), if_pos rfl]
    rfl
  · rw [hafter.stats_eq, Memory.get?_stats_merged, if_neg htaken, if_pos rfl, Memory.received,
      Memory.statsOf_merged_of_taken htaken]

theorem feed_receiveMessage (hr : (i.receiveMessage folder peer files).1 = .ok r) :
    (i.receiveMessage folder peer files).2.feed =
      if r.updated = [] then i.feed
      else i.feed.publish ⟨folder, peer, r.updated, r.marker, r.stats⟩ := by
  have hfeed : (i.merge folder peer files).2.feed = i.feed := rfl
  cases hmerge : i.merge folder peer files with
  | mk reply after =>
    rw [hmerge] at hfeed
    rw [receiveMessage, hmerge] at hr ⊢
    cases reply with
    | error e => cases hr
    | ok r' =>
      obtain rfl := Except.ok.inj hr
      simp only [publish, List.isEmpty_iff]
      split_ifs
      · exact hfeed
      · exact congrArg (Feed.publish · _) hfeed

theorem brings_or_silent (h : i.store.Holds m) {turn : Turn} (hb : turn.Bounded) :
    (∃ folder peer files r, turn = .operation (.message folder peer files) ∧
      i.Brings folder peer files r) ∨ i.IsSilent turn := by
  by_cases hsilent : i.IsSilent turn
  · exact .inr hsilent
  · simp only [IsSilent, not_forall] at hsilent
    obtain ⟨folder, peer, files, rfl, r, hr, hsome⟩ := hsilent
    exact .inl ⟨folder, peer, files, r, rfl, brings_of_taken h hb hr hsome⟩

theorem perform_of_silent (h : i.store.Holds m) {turn : Turn} (hb : turn.Bounded)
    (hclear : ¬turn.isClearing) (hsilent : i.IsSilent turn) :
    turn.read i ++ (turn.perform i).feed.events = i.feed.events ∧
      ∃ m', (turn.perform i).store.Holds m' ∧ m'.files = m.files := by
  cases turn with
  | reading count => exact ⟨List.take_append_drop count i.feed.events, m, h, rfl⟩
  | operation o =>
    cases o with
    | message folder peer files =>
      cases hr : (i.receiveMessage folder peer files).1 with
      | error e =>
        have hsame : (Turn.operation (.message folder peer files)).perform i = i :=
          receiveMessage_of_error hr
        rw [hsame]
        exact ⟨rfl, m, h, rfl⟩
      | ok r =>
        have hnil := hsilent folder peer files rfl r hr
        have hfeed := feed_receiveMessage hr
        rw [if_pos hnil] at hfeed
        obtain ⟨marker, -, rfl, hafter⟩ := holds_taken h hb hr
        exact ⟨congrArg Feed.events hfeed, _, hafter, Memory.files_merged_of_nil hnil⟩
    | announcement folder peer indexId maxSequence => exact ⟨rfl, _, holds_perform h hb, rfl⟩
    | clearing draw => exact absurd rfl hclear

theorem KeepsUp.lost {turns : List Turn} (h : KeepsUp turns i) : i.feed.lost = 0 := by
  cases turns with
  | nil => exact h
  | cons turn rest => exact h.1

theorem exists_tells (h : i.store.Holds m) {turns : List Turn}
    (hb : ∀ turn ∈ turns, turn.Bounded) (hclear : ∀ turn ∈ turns, ¬turn.isClearing)
    (hup : KeepsUp turns i) :
    ∃ events m', heard turns i = i.feed.events ++ events ∧ Tells turns i events ∧
      (i.follow turns).store.Holds m' ∧ m'.files = events.foldl overlay m.files := by
  induction turns generalizing i m with
  | nil => exact ⟨[], m, (List.append_nil _).symm, .nil i, h, rfl⟩
  | cons turn rest ih =>
    have hbturn := hb turn List.mem_cons_self
    have hbrest : ∀ turn ∈ rest, turn.Bounded := fun t ht => hb t (List.mem_cons_of_mem _ ht)
    have hclear' : ∀ turn ∈ rest, ¬turn.isClearing := fun t ht => hclear t (List.mem_cons_of_mem _ ht)
    obtain ⟨-, hrest⟩ := hup
    rcases brings_or_silent h hbturn with ⟨folder, peer, files, r, rfl, hbrings⟩ | hsilent
    · obtain ⟨marker, -, rfl, hafter⟩ := holds_taken h hbturn hbrings.taken
      obtain ⟨events, m', hheard, htells, hholds, hfiles⟩ := ih hafter hbrest hclear' hrest
      -- Nothing is lost later, so nothing was lost when the event came in.
      have hfeed := feed_receiveMessage hbrings.taken
      rw [if_neg hbrings.nonempty] at hfeed
      have hevents := Feed.publish_of_lost (hfeed ▸ hrest.lost)
      rw [← hfeed] at hevents
      rw [hevents, List.append_assoc] at hheard
      refine ⟨_ :: events, m', hheard, .message hbrings htells, hholds, ?_⟩
      rw [hfiles, m.files_merged marker folder peer, List.foldl_cons]
    · obtain ⟨hleft, m₁, hafter, hsame⟩ :=
        perform_of_silent h hbturn (hclear turn List.mem_cons_self) hsilent
      obtain ⟨events, m', hheard, htells, hholds, hfiles⟩ := ih hafter hbrest hclear' hrest
      refine ⟨events, m', ?_, .silent hsilent htells, hholds, hsame ▸ hfiles⟩
      rw [heard, hheard, ← List.append_assoc, hleft]

/-- A subscriber that is there from the start and keeps up hears of each message that brings something,
once and in order, with the marker and the statistics behind it, and of nothing else. As long as the
index is not forgotten, the records that it has heard of are those of the index, the latest of each
path. -/
theorem replay_eq_records {backend : Backend} {draw : UInt64} {store : Store}
    (hs : Store.create backend draw = .ok store) {turns : List Turn}
    (hb : ∀ turn ∈ turns, turn.Bounded) (hclear : ∀ turn ∈ turns, ¬turn.isClearing)
    (hup : KeepsUp turns { store }) :
    let i := follow { store } turns
    let events := heard turns { store }
    Tells turns { store } events ∧ ∀ folder path,
      (i.store.answer (.file folder path)).1 = .ok ((replay events).get? ⟨folder, path⟩) := by
  intro i events
  have hfresh : ({ store } : Index).store.Holds (.fresh draw) := Store.holds_of_create hs
  obtain ⟨told, m', hheard, htells, hholds, hfiles⟩ := exists_tells hfresh hb hclear hup
  have hevents : events = told := hheard
  rw [hevents]
  refine ⟨htells, fun folder path => ?_⟩
  rw [hholds.file_eq, hfiles]
  rfl

theorem replay_eq_records_summer :
    let turns : List Turn :=
      [.operation (.announcement "photos" .zero 7 2),
       .operation (.message "music" .zero [.directory "spring" 9 1]),
       .operation (.message "photos" .zero [.directory "summer" 10 1]),
       .reading 1,
       .operation (.message "photos" .zero [.directory "summer" 9 2]),
       .operation (.message "photos" .zero [.directory "summer" 11 3])]
    let i := follow { store := .memory (.fresh 5) } turns
    let events := heard turns { store := .memory (.fresh 5) }
    Tells turns { store := .memory (.fresh 5) } events ∧
      events.map (·.files.map (·.lastModified.seconds)) = [[10], [11]] ∧
      (i.store.answer (.file "photos" "summer")).1 =
        .ok ((replay events).get? ⟨"photos", "summer"⟩) := by
  intro turns i events
  have hs : Store.create .memory 5 = .ok (.memory (.fresh 5)) := rfl
  have hb : ∀ turn ∈ turns, turn.Bounded := by decide
  have hclear : ∀ turn ∈ turns, ¬turn.isClearing := by decide
  have hup : KeepsUp turns { store := .memory (.fresh 5) } := by decide +kernel
  obtain ⟨htells, hfile⟩ := replay_eq_records hs hb hclear hup
  exact ⟨htells, by decide +kernel, hfile "photos" "summer"⟩

end Index

end BlockExchange
