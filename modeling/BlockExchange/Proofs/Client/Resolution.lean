import BlockExchange.Client.Settings
import BlockExchange.Proofs.Hex
import BlockExchange.Proofs.Table
import BlockExchange.Proofs.Traversal
import Mathlib.Tactic.ByContra

namespace BlockExchange

namespace DeviceId

def IsWritten (text : String) (id : DeviceId) : Prop :=
  IsText text ∧ id.toHex = text.toLower

inductive IsMalformed (text : String) : ModelError → Prop where
  | notHex {e : HexError} (h : Hex.decode text = .error e) : IsMalformed text (.deviceIdNotHex e)
  | length (hd : ∀ c ∈ text.toList, Hex.IsDigit c) (heven : text.toList.length % 2 = 0)
      (hl : text.toList.length ≠ 64) : IsMalformed text (.deviceIdLength text)

variable {text : String} {a b : DeviceId}

theorem IsWritten.eq (ha : IsWritten text a) (hb : IsWritten text b) : a = b :=
  toHex_injective (ha.2.trans hb.2.symm)

theorem ofHex_eq_error_iff {cause : ModelError} :
    ofHex text = .error cause ↔ IsMalformed text cause := by
  unfold ofHex
  cases hd : Hex.decode text with
  | error e =>
    constructor
    · rintro ⟨⟩
      exact .notHex hd
    · rintro (h | ⟨hdigits, heven, -⟩)
      · cases hd.symm.trans h
        rfl
      · obtain ⟨bytes, hbytes, -⟩ := Hex.exists_decode hdigits heven
        cases hd.symm.trans hbytes
  | ok bytes =>
    obtain ⟨heven, hdigits, hencode⟩ := Hex.decode_eq_ok_iff.mp hd
    have hlength := Hex.length_of_encode hencode
    by_cases hlen : bytes.length = 32
    · simp only [ofBytes?, hlen, dif_pos, reduceCtorEq, false_iff]
      rintro (h | ⟨-, -, hl⟩)
      · cases hd.symm.trans h
      · omega
    · simp only [ofBytes?, hlen, dif_neg, not_false_eq_true, Except.error.injEq]
      constructor
      · rintro rfl
        exact .length hdigits heven (by omega)
      · rintro (h | -)
        · cases hd.symm.trans h
        · rfl

theorem exists_isMalformed_iff : (∃ cause, IsMalformed text cause) ↔ ¬IsText text := by
  simp only [← ofHex_eq_error_iff, ← exists_ofHex_iff]
  cases ofHex text <;> simp

end DeviceId

namespace ClientSettings

open DeviceId (IsText IsWritten IsMalformed)

inductive Mention where
  | name (text : String)
  | share (folder text : String)

def Mention.text : Mention → String
  | name text => text
  | share _ text => text

def mentions (s : ClientSettings) : List Mention :=
  .name s.device :: s.peers.map (fun p => .name p.device) ++
    s.folders.flatMap fun f => f.devices.map (.share f.id)

def IsPeer (s : ClientSettings) (d : DeviceId) : Prop :=
  ∃ p ∈ s.peers, IsWritten p.device d

/-- What is wrong at a place: there is no id, or a folder is shared with a device that is no peer. -/
inductive IsFault (s : ClientSettings) : Mention → SettingsError → Prop where
  | malformed {m : Mention} {cause : ModelError} (h : IsMalformed m.text cause) :
      IsFault s m (.model cause)
  | unconfigured {folder text : String} {d : DeviceId} (h : IsWritten text d) (hp : ¬s.IsPeer d) :
      IsFault s (.share folder text) (.unconfiguredPeer folder d)

structure IsConsistent (s : ClientSettings) : Prop where
  device : IsText s.device
  peers : ∀ p ∈ s.peers, IsText p.device
  shared : ∀ f ∈ s.folders, ∀ text ∈ f.devices, ∃ d, IsWritten text d ∧ s.IsPeer d

structure Resolves (s : ClientSettings) (c : Configuration) : Prop where
  device : IsWritten s.device c.device
  name : c.name = s.deviceName
  folders : s.folders.Forall₂ (fun f shared => shared.id = f.id ∧ shared.label = f.label.getD f.id ∧
    f.devices.Forall₂ IsWritten shared.devices) c.folders

def IsReachedAt (peers : List PeerSettings) (d : DeviceId) (address : String) : Prop :=
  ∃ before p after, peers = before ++ p :: after ∧ IsWritten p.device d ∧ p.address = address ∧
    ∀ q ∈ after, ¬IsWritten q.device d

variable {s : ClientSettings} {c : Configuration} {known : Addresses} {text folder : String}
  {d : DeviceId} {address : String} {e : SettingsError}

theorem readId_eq_ok_iff :
    (DeviceId.ofHex text).mapError SettingsError.model = .ok d ↔ IsWritten text d := by
  rw [mapError_eq_ok_iff, DeviceId.ofHex_eq_ok_iff, IsWritten]

theorem isFault_name_iff :
    s.IsFault (.name text) e ↔ ∃ cause, IsMalformed text cause ∧ .model cause = e := by
  constructor
  · rintro ⟨h⟩
    exact ⟨_, h, rfl⟩
  · rintro ⟨cause, h, rfl⟩
    exact .malformed h

theorem isFault_share_iff :
    s.IsFault (.share folder text) e ↔
      (∃ cause, IsMalformed text cause ∧ .model cause = e) ∨
        ∃ d, IsWritten text d ∧ ¬s.IsPeer d ∧ .unconfiguredPeer folder d = e := by
  constructor
  · rintro (h | ⟨h, hp⟩)
    · exact .inl ⟨_, h, rfl⟩
    · exact .inr ⟨_, h, hp, rfl⟩
  · rintro (⟨cause, h, rfl⟩ | ⟨d, h, hp, rfl⟩)
    · exact .malformed h
    · exact .unconfigured h hp

theorem readId_eq_error_iff :
    (DeviceId.ofHex text).mapError SettingsError.model = .error e ↔ s.IsFault (.name text) e := by
  simp only [mapError_eq_error_iff, DeviceId.ofHex_eq_error_iff, isFault_name_iff]

theorem addAddress_eq_ok_iff {known' : Addresses} {p : PeerSettings} :
    addAddress known p = .ok known' ↔
      ∃ d, IsWritten p.device d ∧ known.insert d p.address = known' := by
  simp only [addAddress, bind_eq_ok_iff, readId_eq_ok_iff, pure, Except.pure, Except.ok.injEq]

theorem addAddress_eq_error_iff {p : PeerSettings} :
    addAddress known p = .error e ↔ s.IsFault (.name p.device) e := by
  simp [addAddress, bind_eq_error_iff, readId_eq_error_iff (s := s), pure, Except.pure]

theorem addresses_eq_error_iff :
    s.addresses = .error e ↔ IsFirst s.IsFault (s.peers.map fun p => .name p.device) e := by
  rw [isFirst_map, addresses]
  exact foldlM_eq_error_iff (R := fun p : PeerSettings => s.IsFault (.name p.device))
    fun _ _ _ => addAddress_eq_error_iff

theorem isReachedAt_concat {peers : List PeerSettings} {p : PeerSettings} :
    IsReachedAt (peers ++ [p]) d address ↔
      IsReachedAt peers d address ∧ ¬IsWritten p.device d ∨
        IsWritten p.device d ∧ p.address = address := by
  rw [IsReachedAt, exists_split_concat]
  simp only [List.forall_mem_append, List.forall_mem_singleton, List.not_mem_nil, false_implies,
    implies_true, and_true, IsReachedAt, ← and_assoc, exists_and_right]

theorem get?_foldlM_addAddress {peers : List PeerSettings}
    (h : peers.foldlM addAddress {} = .ok known) :
    known.get? d = some address ↔ IsReachedAt peers d address := by
  -- From the end: what is added last replaces what is known.
  induction peers using List.reverseRecOn generalizing known with
  | nil =>
    cases h
    simp [IsReachedAt]
  | append_singleton peers p ih =>
    simp only [List.foldlM_append, List.foldlM_cons, List.foldlM_nil, bind_eq_ok_iff] at h
    obtain ⟨known', hpeers, known'', hp, hk⟩ := h
    obtain ⟨d', hd', rfl⟩ := addAddress_eq_ok_iff.mp hp
    cases hk
    rw [Table.get?_insert, isReachedAt_concat, ← ih hpeers]
    split_ifs with heq
    · simp [heq, hd']
    · have hnot : ¬IsWritten p.device d := fun hd => heq (hd.eq hd')
      simp [hnot]

theorem exists_isReachedAt_iff {peers : List PeerSettings} :
    (∃ address, IsReachedAt peers d address) ↔ ∃ p ∈ peers, IsWritten p.device d := by
  rw [← exists_last_iff]
  constructor
  · rintro ⟨_, before, p, after, hpeers, hp, -, hafter⟩
    exact ⟨before, p, after, hpeers, hp, hafter⟩
  · rintro ⟨before, p, after, hpeers, hp, hafter⟩
    exact ⟨p.address, before, p, after, hpeers, hp, rfl, hafter⟩

theorem isSome_get?_addresses (h : s.addresses = .ok known) :
    (known.get? d).isSome ↔ s.IsPeer d := by
  rw [Option.isSome_iff_exists, IsPeer, ← exists_isReachedAt_iff]
  exact exists_congr fun address => get?_foldlM_addAddress h

theorem folderDevice_eq_ok_iff (hk : ∀ d, (known.get? d).isSome ↔ s.IsPeer d) :
    folderDevice known folder text = .ok d ↔ IsWritten text d ∧ s.IsPeer d := by
  simp only [folderDevice, bind_eq_ok_iff, readId_eq_ok_iff, ← hk]
  constructor
  · rintro ⟨d', hd', h⟩
    split_ifs at h with hp
    cases h
    exact ⟨hd', hp⟩
  · rintro ⟨hd, hp⟩
    exact ⟨d, hd, if_pos hp⟩

theorem folderDevice_eq_error_iff (hk : ∀ d, (known.get? d).isSome ↔ s.IsPeer d) :
    folderDevice known folder text = .error e ↔ s.IsFault (.share folder text) e := by
  simp only [folderDevice, bind_eq_error_iff, readId_eq_ok_iff, isFault_share_iff,
    readId_eq_error_iff (s := s), isFault_name_iff, ← hk]
  refine or_congr_right (exists_congr fun d => and_congr_right fun _ => ?_)
  split_ifs with hp <;> simp [hp]

theorem sharedFolder_eq_ok_iff (hk : ∀ d, (known.get? d).isSome ↔ s.IsPeer d) {f : FolderSettings}
    {shared : SharedFolder} :
    sharedFolder known f = .ok shared ↔ shared.id = f.id ∧ shared.label = f.label.getD f.id ∧
      f.devices.Forall₂ (fun text d => IsWritten text d ∧ s.IsPeer d) shared.devices := by
  obtain ⟨id, label, devices⟩ := shared
  simp only [sharedFolder, bind_eq_ok_iff, mapM_eq_ok_iff, folderDevice_eq_ok_iff hk, pure, Except.pure,
    Except.ok.injEq, SharedFolder.mk.injEq]
  constructor
  · rintro ⟨_, h, rfl, rfl, rfl⟩
    exact ⟨rfl, rfl, h⟩
  · rintro ⟨rfl, rfl, h⟩
    exact ⟨_, h, rfl, rfl, rfl⟩

theorem sharedFolder_eq_error_iff (hk : ∀ d, (known.get? d).isSome ↔ s.IsPeer d) {f : FolderSettings} :
    sharedFolder known f = .error e ↔ IsFirst s.IsFault (f.devices.map (.share f.id)) e := by
  simp [sharedFolder, bind_eq_error_iff, mapM_eq_error_iff, folderDevice_eq_error_iff hk, isFirst_map,
    pure, Except.pure]

theorem configuration_eq_error_iff :
    s.configuration = .error e ↔ IsFirst s.IsFault s.mentions e := by
  rw [mentions, List.cons_append, isFirst_cons, isFirst_append, ← forall_not_isFirst_iff]
  simp only [← readId_eq_error_iff, ← addresses_eq_error_iff]
  rw [configuration]
  apply bind_eq_error_iff_or
  intro device _
  apply bind_eq_error_iff_or
  intro known hknown
  have hk : ∀ d, (known.get? d).isSome ↔ s.IsPeer d := fun d => isSome_get?_addresses hknown
  simp [bind_eq_error_iff, mapM_eq_error_iff, sharedFolder_eq_error_iff hk, isFirst_flatMap, pure,
    Except.pure]

theorem forall_not_isFault_name_iff : (∀ e, ¬s.IsFault (.name text) e) ↔ IsText text := by
  simp only [isFault_name_iff]
  rw [← not_iff_not, ← DeviceId.exists_isMalformed_iff]
  simp

theorem forall_not_isFault_share_iff :
    (∀ e, ¬s.IsFault (.share folder text) e) ↔ ∃ d, IsWritten text d ∧ s.IsPeer d := by
  constructor
  · intro h
    have htext : IsText text := by
      by_contra hnot
      obtain ⟨cause, hcause⟩ := DeviceId.exists_isMalformed_iff.mpr hnot
      exact h _ (.malformed hcause)
    obtain ⟨d, hd⟩ := DeviceId.exists_ofHex_iff.mpr htext
    have hwritten : IsWritten text d := DeviceId.ofHex_eq_ok_iff.mp hd
    refine ⟨d, hwritten, ?_⟩
    by_contra hnot
    exact h _ (.unconfigured hwritten hnot)
  · rintro ⟨d, hd, hp⟩ e (hcause | ⟨hd', hnot⟩)
    · exact DeviceId.exists_isMalformed_iff.mp ⟨_, hcause⟩ hd.1
    · exact hnot (hd.eq hd' ▸ hp)

theorem isConsistent_iff : s.IsConsistent ↔ ∀ m ∈ s.mentions, ∀ e, ¬s.IsFault m e := by
  simp only [mentions, List.cons_append, List.forall_mem_cons, List.forall_mem_append,
    List.forall_mem_map, List.forall_mem_flatMap, forall_not_isFault_name_iff,
    forall_not_isFault_share_iff]
  exact ⟨fun h => ⟨h.device, h.peers, h.shared⟩, fun ⟨hdevice, hpeers, hshared⟩ =>
    ⟨hdevice, hpeers, hshared⟩⟩

theorem resolves_of_configuration (h : s.configuration = .ok c) :
    s.Resolves c ∧ ∃ known, s.addresses = .ok known ∧ ∀ f ∈ c.folders, ∀ d ∈ f.devices, s.IsPeer d := by
  simp only [configuration, bind_eq_ok_iff, readId_eq_ok_iff, mapM_eq_ok_iff] at h
  obtain ⟨device, hdevice, known, hknown, folders, hfolders, hc⟩ := h
  cases hc
  have hk : ∀ d, (known.get? d).isSome ↔ s.IsPeer d := fun d => isSome_get?_addresses hknown
  refine ⟨⟨hdevice, rfl, hfolders.imp ?_⟩, known, hknown, ?_⟩
  · intro f shared hf
    obtain ⟨hid, hlabel, hdevices⟩ := (sharedFolder_eq_ok_iff hk).mp hf
    exact ⟨hid, hlabel, hdevices.imp fun _ _ hd => hd.1⟩
  · intro shared hshared d hd
    obtain ⟨f, _, hf⟩ := exists_of_mem_forall₂ hfolders hshared
    obtain ⟨-, -, hdevices⟩ := (sharedFolder_eq_ok_iff hk).mp hf
    obtain ⟨text, _, -, hp⟩ := exists_of_mem_forall₂ hdevices hd
    exact hp

/-- Exactly the consistent settings resolve: to the folders as they stand in the text, and with an
address for every device that one is shared with. Of the others the first fault is reported. -/
theorem configuration_outcome (s : ClientSettings) :
    ((∃ c, s.configuration = .ok c) ↔ s.IsConsistent) ∧
      (∀ e, s.configuration = .error e ↔ IsFirst s.IsFault s.mentions e) ∧
      ∀ c, s.configuration = .ok c → s.Resolves c ∧
        ∃ known, s.addresses = .ok known ∧
          (∀ d address, known.get? d = some address ↔ IsReachedAt s.peers d address) ∧
          ∀ f ∈ c.folders, ∀ d ∈ f.devices, ∃ address, known.get? d = some address := by
  refine ⟨?_, fun e => configuration_eq_error_iff, ?_⟩
  · rw [exists_eq_ok_iff, isConsistent_iff, ← forall_not_isFirst_iff]
    simp only [ne_eq, configuration_eq_error_iff]
  · intro c hc
    obtain ⟨hresolves, known, hknown, hpeers⟩ := resolves_of_configuration hc
    refine ⟨hresolves, known, hknown, fun d address => get?_foldlM_addAddress hknown, ?_⟩
    intro f hf d hd
    exact Option.isSome_iff_exists.mp ((isSome_get?_addresses hknown).mpr (hpeers f hf d hd))

theorem configuration_outcome_repeated_peer :
    let peer : DeviceId := ⟨List.replicate 32 0xab, rfl⟩
    let earlier : PeerSettings := ⟨peer.toHex, "desktop:22000"⟩
    let later : PeerSettings := ⟨peer.toHex.toUpper, "desktop:22001"⟩
    let s : ClientSettings :=
      { device := (Hex.encode (List.replicate 32 0xcd)).toUpper
        deviceName := "laptop"
        peers := [earlier, later]
        folders := [
          { id := "photos", label := some "Photos", devices := [peer.toHex.toUpper, peer.toHex] },
          { id := "notes" }] }
    let c : Configuration :=
      ⟨⟨List.replicate 32 0xcd, rfl⟩, "laptop", [⟨"photos", "Photos", [peer, peer]⟩, ⟨"notes", "notes", []⟩]⟩
    s.configuration = .ok c ∧ s.IsConsistent ∧
      ∃ known, s.addresses = .ok known ∧ known.get? peer = some "desktop:22001" := by
  intro peer earlier later s c
  have hc : s.configuration = .ok c := by decide +kernel
  have hlater : IsWritten later.device peer := DeviceId.ofHex_eq_ok_iff.mp (by decide +kernel)
  obtain ⟨hconsistent, -, hok⟩ := configuration_outcome s
  obtain ⟨-, known, hknown, hreached, -⟩ := hok c hc
  exact ⟨hc, hconsistent.mp ⟨c, hc⟩, known, hknown,
    (hreached peer _).mpr ⟨[earlier], later, [], rfl, hlater, rfl, by simp⟩⟩

end ClientSettings

end BlockExchange
