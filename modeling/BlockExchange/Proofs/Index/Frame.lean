import BlockExchange.Index
import BlockExchange.Proofs.Index.Receive
import BlockExchange.Proofs.Store.Frame

namespace BlockExchange

variable {folder : String} {device : DeviceId} {s : Store}

theorem Database.Tables.marker_key {t : Tables} {k : Marker}
    (h : t.marker folder device = .ok (some k)) : k.key = ⟨folder, device⟩ := by
  unfold marker at h
  split at h
  · rename_i row hfind
    have hrow := List.find?_some hfind
    simp only [isMarkerOf, Bool.and_eq_true, beq_iff_eq] at hrow
    simp only [MarkerRow.toMarker, hrow.2, DeviceId.ofHex_toHex, Except.map, Except.ok.injEq,
      Option.some.injEq] at h
    rw [← h, ← hrow.1]
    rfl
  · cases h

theorem Store.IsWellKeyed.marker_key (h : s.IsWellKeyed) {k : Marker}
    (hk : (s.answer (.marker folder device)).1 = .ok (some k)) : k.key = ⟨folder, device⟩ := by
  cases s with
  | memory m => exact Table.IsKeyedBy.key_of_get? (Memory.IsWellKeyed.markers h) (Except.ok.inj hk)
  | database versions tables durable =>
    apply Database.Tables.marker_key (t := tables)
    have hmap : (tables.marker folder device).mapError StoreError.database = .ok (some k) := hk
    exact mapError_eq_ok_iff.mp hmap

namespace Store

theorem putEach_asks {records : List FileRecord} (h : ∀ r ∈ records, r.folder = folder)
    (lists : Table String BlockList) (s : Store) :
    (putEach records lists).Asks (fun _ q => q.IsWithin folder device) s := by
  induction records generalizing lists s with
  | nil => trivial
  | cons r rest ih =>
    have hput : (Query.putFile r (lists.get? r.path)).IsWithin folder device := h r List.mem_cons_self
    apply (Transaction.asks_ask hput).bind
    intro _ s' _
    exact ih (fun r' hr' => h r' (List.mem_cons_of_mem _ hr')) _ s'

theorem putFiles_asks {records : List FileRecord} (h : ∀ r ∈ records, r.folder = folder)
    (lists : List BlockList) (s : Store) :
    (putFiles records lists).Asks (fun _ q => q.IsWithin folder device) s := by
  unfold putFiles
  split
  · trivial
  · exact putEach_asks h _ s

end Store

namespace Index

theorem folder_of_mem_accepted {old : Table String FileRecord} {files : List FileEntry}
    {p : FileRecord × Option BlockList} (h : p ∈ accepted folder old files) : p.1.folder = folder := by
  obtain ⟨hmem, -⟩ := List.mem_filter.mp h
  obtain ⟨f, -, hp⟩ := List.mem_filterMap.mp hmem
  exact congrArg InFolder.folder (FileEntry.prepare?_key hp)

theorem folder_of_mem_stamp {pairs : List (FileRecord × Option BlockList)}
    (h : ∀ p ∈ pairs, p.1.folder = folder) (start : Int) :
    ∀ r ∈ (stamp start pairs).map (·.1), r.folder = folder := by
  induction pairs generalizing start with
  | nil => exact fun _ hr => nomatch hr
  | cons p rest ih =>
    rw [stamp, List.map_cons, List.forall_mem_cons]
    exact ⟨h p List.mem_cons_self, ih (fun p' hp' => h p' (List.mem_cons_of_mem _ hp')) _⟩

theorem pushRecords_asks (files : List FileEntry) (old : Table String FileRecord) (delta : StatsDelta)
    (s : Store) :
    (pushRecords folder files old delta).Asks (fun _ q => q.IsWithin folder device) s := by
  unfold pushRecords
  apply (Transaction.asks_ask trivial).bind
  intro start s' _
  have haccepted : ∀ p ∈ accepted folder old files, p.1.folder = folder :=
    fun _ => folder_of_mem_accepted
  have hfolder := folder_of_mem_stamp haccepted start
  exact (Store.putFiles_asks hfolder _ s').bind fun _ _ _ => trivial

theorem pushRecords_folder {files : List FileEntry} {old : Table String FileRecord}
    {delta : StatsDelta} {s' : Store} {updated : List FileRecord} {delta' : StatsDelta}
    (h : (pushRecords folder files old delta).run Store.answer s = (.ok (updated, delta'), s')) :
    delta'.folder = delta.folder := by
  unfold pushRecords at h
  obtain ⟨start, s₁, -, h⟩ := Transaction.run_bind_eq_ok h
  obtain ⟨_, s₂, -, h⟩ := Transaction.run_bind_eq_ok h
  cases h
  exact StatsDelta.folder_foldl _ delta

theorem flush_asks {delta : StatsDelta} (h : delta.folder = folder) (s : Store) :
    (flush delta).Asks (fun _ q => q.IsWithin folder device) s := by
  unfold flush
  split_ifs
  · trivial
  · apply (Transaction.asks_ask h).bind
    intro _ s' _
    split
    · exact Transaction.asks_ask h
    · trivial

theorem advance_asks {marker : Marker} (h : marker.key = ⟨folder, device⟩) (sequence : Int)
    (s : Store) : (advance marker sequence).Asks (fun _ q => q.IsWithin folder device) s := by
  unfold advance
  split_ifs
  · trivial
  · exact (Transaction.asks_ask h).bind fun _ _ _ => trivial

theorem takeIn_asks {marker : Marker} (h : marker.key = ⟨folder, device⟩) (files : List FileEntry)
    (s : Store) : (takeIn marker folder files).Asks (fun _ q => q.IsWithin folder device) s := by
  unfold takeIn
  apply (Transaction.asks_ask trivial).bind
  intro old s₁ _
  apply (pushRecords_asks files old _ s₁).bind
  rintro ⟨updated, delta⟩ s₂ hpush
  have hend : ∀ (k : Marker) (s : Store), Transaction.Asks (fun _ q => q.IsWithin folder device)
      (do let stats ← (Query.stats folder).ask; return (⟨k, updated, stats.getD { folder }⟩ : Received))
      s := fun k s => (Transaction.asks_ask trivial).bind fun _ _ _ => trivial
  dsimp only
  cases (files.map (·.sequence.toInt)).max? with
  | none => exact hend marker s₂
  | some newest =>
    apply (flush_asks (pushRecords_folder hpush) s₂).bind
    intro _ s₃ _
    exact (advance_asks h newest s₃).bind fun k s₄ _ => hend k s₄

theorem findMarker_asks (s : Store) :
    (findMarker folder device).Asks (fun _ q => q.IsWithin folder device) s := by
  unfold findMarker
  have hask : (Query.marker folder device).IsWithin folder device := trivial
  apply ((Transaction.asks_ask hask).mapError ExchangeError.store).bind
  rintro (_ | k) s' _ <;> trivial

theorem run_ask_mapError {q : Query} {r : q.Reply} {s' : Store}
    (h : (q.ask.mapError ExchangeError.store).run Store.answer s = (.ok r, s')) :
    s.answer q = (.ok r, s') := by
  rw [Transaction.run_mapError, Transaction.run_ask] at h
  obtain ⟨hr, rfl⟩ := Prod.mk.inj h
  exact Prod.ext (mapError_eq_ok_iff.mp hr) rfl

theorem findMarker_eq_ok {k : Marker} {s' : Store}
    (h : (findMarker folder device).run Store.answer s = (.ok k, s')) :
    (s.answer (.marker folder device)).1 = .ok (some k) := by
  unfold findMarker at h
  obtain ⟨known, s₁, hask, h⟩ := Transaction.run_bind_eq_ok h
  rw [run_ask_mapError hask]
  cases known with
  | none => cases h
  | some k' =>
    cases h
    rfl

theorem receive_asks (h : s.IsWellKeyed) (files : List FileEntry) :
    (receive folder device files).Asks (fun _ q => q.IsWithin folder device) s := by
  unfold receive
  apply (findMarker_asks s).bind
  intro k s' hfind
  exact (takeIn_asks (h.marker_key (findMarker_eq_ok hfind)) files s').mapError _

theorem announce_asks (h : s.IsWellKeyed) (indexId : UInt64) (maxSequence : Int) :
    (announce folder device indexId maxSequence).Asks (fun _ q => q.IsWithin folder device) s := by
  have hask : (Query.marker folder device).IsWithin folder device := trivial
  unfold announce
  apply ((Transaction.asks_ask hask).mapError ExchangeError.store).bind
  intro known s₁ hknown
  have hkey : (announced folder device indexId maxSequence known).key = ⟨folder, device⟩ := by
    apply announced_key
    rintro k rfl
    apply h.marker_key
    rw [run_ask_mapError hknown]
  have hput : (Query.putMarker (announced folder device indexId maxSequence known)).IsWithin folder
      device := hkey
  exact ((Transaction.asks_ask hput).mapError _).bind fun _ _ _ => trivial

variable {i : Index}

theorem agreesApart_merge (h : i.store.IsWellKeyed) (folder : String) (device : DeviceId)
    (files : List FileEntry) : (i.merge folder device files).2.store.IsWellKeyed ∧
      i.store.AgreesApart folder device (i.merge folder device files).2.store :=
  Store.agreesApart_transact h (receive_asks h files)

theorem agreesApart_receiveAnnouncement (h : i.store.IsWellKeyed) (folder : String)
    (device : DeviceId) (indexId : UInt64) (maxSequence : Int) :
    (i.receiveAnnouncement folder device indexId maxSequence).2.store.IsWellKeyed ∧
      i.store.AgreesApart folder device
        (i.receiveAnnouncement folder device indexId maxSequence).2.store :=
  Store.agreesApart_transact h (announce_asks h indexId maxSequence)

theorem remarked_receiveAnnouncement (i : Index) (folder : String) (peer : DeviceId)
    (indexId : UInt64) (maxSequence : Int) :
    i.store.Remarked (i.receiveAnnouncement folder peer indexId maxSequence).2.store := by
  have hask : (Query.marker folder peer).ConcernsMarkers := trivial
  have hput : ∀ k, (Query.putMarker k).ConcernsMarkers := fun _ => trivial
  apply Store.remarked_transact
  unfold announce
  apply ((Transaction.asks_ask hask).mapError ExchangeError.store).bind
  intro known s' _
  exact ((Transaction.asks_ask (hput _)).mapError _).bind fun _ _ _ => trivial

end Index

end BlockExchange
