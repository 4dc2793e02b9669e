import BlockExchange.Client.Settings
import BlockExchange.Proofs.Exchange.Cluster
import BlockExchange.Proofs.Index.Run
import BlockExchange.Proofs.Store.Reachable

namespace BlockExchange

namespace Configuration

variable {c : Configuration} {folder : String} {device : DeviceId}

def Offers (c : Configuration) (folder : String) (device : DeviceId) : Prop :=
  ∃ f ∈ c.folders, f.id = folder ∧ f.isSharedWith device

def Accepts (c : Configuration) (folder : String) (device : DeviceId) : Prop :=
  ∃ f, c.folder? folder = some f ∧ f.isSharedWith device

theorem Accepts.offers (h : c.Accepts folder device) : c.Offers folder device := by
  obtain ⟨f, hf, hshared⟩ := h
  exact ⟨f, List.mem_of_find?_eq_some hf, by simpa using List.find?_some hf, hshared⟩

theorem accepts_iff_offers (hids : (c.folders.map (·.id)).Nodup) :
    c.Accepts folder device ↔ c.Offers folder device := by
  refine ⟨Accepts.offers, ?_⟩
  rintro ⟨f, hf, rfl, hshared⟩
  exact ⟨f, find?_eq_some_of_nodup hids hf, hshared⟩

theorem mem_foldersSharedWith_iff :
    (∃ f ∈ c.foldersSharedWith device, f.id = folder) ↔ c.Offers folder device := by
  constructor
  · rintro ⟨f, hf, hid⟩
    obtain ⟨hmem, hshared⟩ := List.mem_filter.mp hf
    exact ⟨f, hmem, hid, hshared⟩
  · rintro ⟨f, hmem, hid, hshared⟩
    exact ⟨f, List.mem_filter.mpr ⟨hmem, hshared⟩, hid⟩

end Configuration

def OfferedFolder.Lists (f : OfferedFolder) (device : DeviceId) : Prop :=
  ∃ d ∈ f.devices, d.id = device

namespace Cluster

def IsAscending (ids : List String) : Prop :=
  ids.Pairwise fun a b => compare a b = .lt

section

variable {id other : String} {ids ids' : List String}

theorem mem_insertId : other ∈ insertId id ids ↔ other = id ∨ other ∈ ids := by
  induction ids with
  | nil => rw [insertId, List.mem_singleton, List.mem_nil_iff, or_false]
  | cons head rest ih =>
    rw [insertId]
    split
    · exact List.mem_cons
    · rename_i heq
      have hid : id = head := Std.LawfulEqOrd.eq_of_compare heq
      simp [hid]
    · rw [List.mem_cons, ih, List.mem_cons]
      tauto

theorem IsAscending.insertId (h : IsAscending ids) : IsAscending (insertId id ids) := by
  induction ids with
  | nil => exact List.pairwise_singleton _ _
  | cons head rest ih =>
    obtain ⟨hhead, hrest⟩ := List.pairwise_cons.mp h
    rw [Cluster.insertId]
    split
    · rename_i hlt
      refine List.pairwise_cons.mpr ⟨?_, h⟩
      intro other hother
      rcases List.mem_cons.mp hother with rfl | hother
      · exact hlt
      · exact Std.TransCmp.lt_trans hlt (hhead other hother)
    · exact h
    · rename_i hgt
      refine List.pairwise_cons.mpr ⟨?_, ih hrest⟩
      intro other hother
      rcases mem_insertId.mp hother with rfl | hother
      · exact Std.OrientedCmp.gt_iff_lt.mp hgt
      · exact hhead other hother

theorem IsAscending.eq_of_mem_iff (h : IsAscending ids) (h' : IsAscending ids')
    (hmem : ∀ id, id ∈ ids ↔ id ∈ ids') : ids = ids' := by
  have hnodup : ∀ {ids : List String}, IsAscending ids → ids.Nodup := fun h =>
    h.imp fun hlt heq => by simp [heq, Std.ReflCmp.compare_self] at hlt
  have hperm : ids.Perm ids' := (List.perm_ext_iff_of_nodup (hnodup h) (hnodup h')).mpr hmem
  apply hperm.eq_of_pairwise _ h h'
  intro a b _ _ hab hba
  rw [Std.OrientedOrd.eq_swap, hba] at hab
  simp at hab

end

variable {c : Configuration} {peer : DeviceId} {f : OfferedFolder} {folders : List OfferedFolder}
  {info info' : ClusterInfo} {i : Index} {m : Memory}

def Shares (c : Configuration) (peer : DeviceId) (f : OfferedFolder) : Prop :=
  c.Accepts f.id peer ∧ f.Lists c.device

theorem judge_of_shares (h : Shares c peer f) :
    judge c peer f = .shared (f.devices.find? (·.id = peer)) := by
  obtain ⟨⟨mine, hmine, hpeer⟩, hlists⟩ := h
  have hus : f.devices.any (·.id = c.device) = true := by
    simpa [OfferedFolder.Lists] using hlists
  rw [judge, hmine]
  simp [hpeer, hus]

theorem shares_of_judge {entry : Option OfferedDevice} (h : judge c peer f = .shared entry) :
    Shares c peer f := by
  unfold judge at h
  split at h
  · cases h
  · rename_i mine hmine
    split_ifs at h with hpeer hus
    exact ⟨⟨mine, hmine, by simpa using hpeer⟩, by simpa [OfferedFolder.Lists] using hus⟩

theorem receiveFolders_of_shares (h : Shares c peer f) (rest : List OfferedFolder)
    (info : ClusterInfo) (i : Index) :
    receiveFolders c peer (f :: rest) info i =
      match note peer f.id i (f.devices.find? (·.id = peer)) with
      | (.error e, i) => (.error e, i)
      | (.ok (), i) =>
        receiveFolders c peer rest { info with shared := insertId f.id info.shared } i := by
  have heq := receiveFolders.eq_def c peer (f :: rest) info i
  simp only [judge_of_shares h] at heq
  exact heq

theorem receiveFolders_of_not_shares (h : ¬Shares c peer f) (rest : List OfferedFolder)
    (info : ClusterInfo) :
    ∃ new, ∀ i, receiveFolders c peer (f :: rest) info i =
      receiveFolders c peer rest { info with new } i := by
  cases hjudge : judge c peer f with
  | new => exact ⟨info.new ++ [f.id], fun i => by rw [receiveFolders, hjudge]⟩
  | refused => exact ⟨info.new, fun i => by rw [receiveFolders, hjudge]⟩
  | shared entry => exact absurd (shares_of_judge hjudge) h

theorem mem_shared_receiveFolders (h : (receiveFolders c peer folders info i).1 = .ok info')
    (id : String) :
    id ∈ info'.shared ↔ id ∈ info.shared ∨ ∃ f ∈ folders, Shares c peer f ∧ f.id = id := by
  induction folders generalizing info i with
  | nil =>
    cases h
    simp
  | cons f rest ih =>
    by_cases hshares : Shares c peer f
    · rw [receiveFolders_of_shares hshares] at h
      split at h
      · cases h
      · rw [ih h, mem_insertId, List.exists_mem_cons_iff]
        tauto
    · obtain ⟨new, heq⟩ := receiveFolders_of_not_shares hshares rest info
      rw [heq] at h
      rw [ih h, List.exists_mem_cons_iff]
      tauto

theorem isAscending_receiveFolders (h : (receiveFolders c peer folders info i).1 = .ok info')
    (hinfo : IsAscending info.shared) : IsAscending info'.shared := by
  induction folders generalizing info i with
  | nil =>
    cases h
    exact hinfo
  | cons f rest ih =>
    by_cases hshares : Shares c peer f
    · rw [receiveFolders_of_shares hshares] at h
      split at h
      · cases h
      · exact ih h hinfo.insertId
    · obtain ⟨new, heq⟩ := receiveFolders_of_not_shares hshares rest info
      rw [heq] at h
      exact ih h hinfo

theorem holds_note (h : i.store.Holds m) (peer : DeviceId) (folder : String)
    (entry : Option OfferedDevice) :
    (note peer folder i entry).1 = .ok () ∧ ∃ m', (note peer folder i entry).2.store.Holds m' := by
  cases entry with
  | none => exact ⟨rfl, m, h⟩
  | some entry =>
    have hannounce : (Index.announce folder peer entry.indexId entry.maxSequence.toInt).Plays m _ _ :=
      Index.announce_plays h.keyed _ _
    obtain ⟨hreply, hnext⟩ := Index.transact_ok h hannounce
    exact ⟨congrArg (Except.map fun _ => ()) hreply, _, hnext⟩

theorem exists_receiveFolders (h : i.store.Holds m) (c : Configuration) (peer : DeviceId)
    (folders : List OfferedFolder) (info : ClusterInfo) :
    ∃ info', (receiveFolders c peer folders info i).1 = .ok info' := by
  induction folders generalizing info i m with
  | nil => exact ⟨info, rfl⟩
  | cons f rest ih =>
    by_cases hshares : Shares c peer f
    · obtain ⟨hok, m', hnext⟩ := holds_note h peer f.id (f.devices.find? (·.id = peer))
      have hnote : note peer f.id i (f.devices.find? (·.id = peer)) = (.ok (), _) := Prod.ext hok rfl
      rw [receiveFolders_of_shares hshares, hnote]
      exact ih hnext _
    · obtain ⟨new, heq⟩ := receiveFolders_of_not_shares hshares rest info
      rw [heq]
      exact ih h _

theorem exists_localState (i : Index) : ∃ state, i.localState = (.ok state, i) := by
  obtain ⟨store, feed⟩ := i
  cases store <;> exact ⟨_, rfl⟩

theorem buildFolders_eq (h : i.store.Holds m) (c : Configuration) (peer : DeviceId)
    (peerName : String) (state : UInt64 × Int) (folders : List SharedFolder) :
    buildFolders c peer peerName state folders i =
      (.ok (folders.map fun f => offer c peer peerName state f (m.markers.get? ⟨f.id, peer⟩)), i) := by
  induction folders with
  | nil => rfl
  | cons f rest ih =>
    have hreply : (i.ask (.marker f.id peer)).1 = .ok (m.markers.get? ⟨f.id, peer⟩) :=
      (Index.transact_ok h ((Transaction.plays_marker m f.id peer).mapError ExchangeError.store)).1
    have hask : i.ask (.marker f.id peer) = (.ok (m.markers.get? ⟨f.id, peer⟩), i) :=
      Prod.ext hreply (i.ask_of_isReading _ trivial)
    rw [buildFolders, hask]
    dsimp only
    rw [ih]
    rfl

theorem exists_build (h : i.store.Holds m) (c : Configuration) (peer : DeviceId)
    (peerName : String) :
    ∃ state, build c peer peerName i = (.ok ((c.foldersSharedWith peer).map fun f =>
      offer c peer peerName state f (m.markers.get? ⟨f.id, peer⟩)), i) := by
  obtain ⟨state, hstate⟩ := exists_localState i
  exact ⟨state, by rw [build, hstate]; exact buildFolders_eq h c peer peerName state _⟩

theorem mem_shared_iff {mine theirs : Configuration} {j : Index} {k : Memory}
    (hj : j.store.Holds k) {name : String} {offers : List OfferedFolder} {hello : Hello}
    (hbuild : (build theirs mine.device name j).1 = .ok offers)
    (hreceive : (receive mine theirs.device offers hello i).1 = .ok info) (folder : String) :
    folder ∈ info.shared ↔
      theirs.Offers folder mine.device ∧ mine.Accepts folder theirs.device := by
  obtain ⟨state, heq⟩ := exists_build hj theirs mine.device name
  rw [heq] at hbuild
  obtain rfl := Except.ok.inj hbuild
  rw [mem_shared_receiveFolders hreceive]
  constructor
  · rintro (hnone | ⟨f, hf, hshares, rfl⟩)
    · cases hnone
    · obtain ⟨g, hg, rfl⟩ := List.mem_map.mp hf
      exact ⟨Configuration.mem_foldersSharedWith_iff.mp ⟨g, hg, rfl⟩, hshares.1⟩
  · rintro ⟨hoffers, haccepts⟩
    obtain ⟨g, hg, rfl⟩ := Configuration.mem_foldersSharedWith_iff.mpr hoffers
    refine .inr ⟨_, List.mem_map_of_mem hg, ⟨haccepts, ?_⟩, rfl⟩
    exact ⟨_, List.mem_cons_of_mem _ List.mem_cons_self, rfl⟩

/-- Two devices that build and take in each other's offers come to the same shared folders exactly if
of each folder that they both offer, both first entries list the other device or none does. Where no
folder is configured twice, that is always so. -/
theorem shared_eq_iff (mine theirs : Configuration) {i i' j j' : Index} (hi : i.store.Reachable)
    (hi' : i'.store.Reachable) (hj : j.store.Reachable) (hj' : j'.store.Reachable)
    (name name' : String) (hello hello' : Hello) :
    ∃ ours offered info info',
      (build mine theirs.device name i).1 = .ok ours ∧
      (build theirs mine.device name' j).1 = .ok offered ∧
      (receive mine theirs.device offered hello i').1 = .ok info ∧
      (receive theirs mine.device ours hello' j').1 = .ok info' ∧
      (info.shared = info'.shared ↔ ∀ folder, mine.Offers folder theirs.device →
        theirs.Offers folder mine.device →
        (mine.Accepts folder theirs.device ↔ theirs.Accepts folder mine.device)) ∧
      ((mine.folders.map (·.id)).Nodup → (theirs.folders.map (·.id)).Nodup →
        info.shared = info'.shared) := by
  obtain ⟨m, hm⟩ := hi.exists_holds
  obtain ⟨m', hm'⟩ := hi'.exists_holds
  obtain ⟨k, hk⟩ := hj.exists_holds
  obtain ⟨k', hk'⟩ := hj'.exists_holds
  obtain ⟨state, hours⟩ := exists_build hm mine theirs.device name
  obtain ⟨state', hoffered⟩ := exists_build hk theirs mine.device name'
  obtain ⟨info, hinfo⟩ := exists_receiveFolders hm' mine theirs.device
    ((theirs.foldersSharedWith mine.device).map fun f =>
      offer theirs mine.device name' state' f (k.markers.get? ⟨f.id, mine.device⟩)) ⟨[], [], hello⟩
  obtain ⟨info', hinfo'⟩ := exists_receiveFolders hk' theirs mine.device
    ((mine.foldersSharedWith theirs.device).map fun f =>
      offer mine theirs.device name state f (m.markers.get? ⟨f.id, theirs.device⟩)) ⟨[], [], hello'⟩
  have hmem := mem_shared_iff hk (congrArg Prod.fst hoffered) hinfo
  have hmem' := mem_shared_iff hm (congrArg Prod.fst hours) hinfo'
  have hiff : info.shared = info'.shared ↔ ∀ folder, mine.Offers folder theirs.device →
      theirs.Offers folder mine.device →
      (mine.Accepts folder theirs.device ↔ theirs.Accepts folder mine.device) := by
    constructor
    · intro heq folder hoffers hoffers'
      have hfolder := hmem folder
      rw [heq, hmem' folder] at hfolder
      tauto
    · intro hfirst
      apply (isAscending_receiveFolders hinfo .nil).eq_of_mem_iff
        (isAscending_receiveFolders hinfo' .nil)
      intro folder
      have hoffers : mine.Accepts folder theirs.device → mine.Offers folder theirs.device :=
        Configuration.Accepts.offers
      have hoffers' : theirs.Accepts folder mine.device → theirs.Offers folder mine.device :=
        Configuration.Accepts.offers
      rw [hmem folder, hmem' folder]
      have hboth := hfirst folder
      tauto
  refine ⟨_, _, info, info', congrArg Prod.fst hours, congrArg Prod.fst hoffered, hinfo, hinfo',
    hiff, ?_⟩
  intro hids hids'
  rw [hiff]
  intro folder hoffers hoffers'
  exact iff_of_true ((Configuration.accepts_iff_offers hids).mpr hoffers)
    ((Configuration.accepts_iff_offers hids').mpr hoffers')

theorem shared_eq_iff_photos :
    let one : DeviceId := ⟨List.replicate 32 1, rfl⟩
    let mine : Configuration := ⟨.zero, "mine", [⟨"photos", "photos", [one]⟩]⟩
    let theirs : Configuration := ⟨one, "theirs", [⟨"photos", "photos", [.zero]⟩]⟩
    let i : Index := { store := .memory (.fresh 5) }
    let hello : Hello := ⟨"device", "client", "1"⟩
    i.store.Reachable ∧ ∃ ours offered info info',
      (build mine one "theirs" i).1 = .ok ours ∧ (build theirs .zero "mine" i).1 = .ok offered ∧
      (receive mine one offered hello i).1 = .ok info ∧
      (receive theirs .zero ours hello i).1 = .ok info' ∧ info.shared = info'.shared := by
  intro one mine theirs i hello
  have hcreate : Store.create .memory 5 = .ok i.store := rfl
  have hi : i.store.Reachable := .created hcreate
  obtain ⟨ours, offered, info, info', hours, hoffered, hinfo, hinfo', -, hsame⟩ :=
    shared_eq_iff mine theirs hi hi hi hi "theirs" "mine" hello hello
  exact ⟨hi, ours, offered, info, info', hours, hoffered, hinfo, hinfo',
    hsame (by decide) (by decide)⟩

theorem shared_ne_of_repeated_folder :
    let one : DeviceId := ⟨List.replicate 32 1, rfl⟩
    let mine : Configuration :=
      ⟨.zero, "mine", [⟨"photos", "photos", []⟩, ⟨"photos", "photos", [one]⟩]⟩
    let theirs : Configuration := ⟨one, "theirs", [⟨"photos", "photos", [.zero]⟩]⟩
    let i : Index := { store := .memory (.fresh 5) }
    let hello : Hello := ⟨"device", "client", "1"⟩
    ClientSettings.configuration
        { device := DeviceId.zero.toHex
          deviceName := "mine"
          peers := [⟨one.toHex, "theirs:22000"⟩]
          folders := [{ id := "photos" }, { id := "photos", devices := [one.toHex] }] } = .ok mine ∧
      ClientSettings.configuration
        { device := one.toHex
          deviceName := "theirs"
          peers := [⟨DeviceId.zero.toHex, "mine:22000"⟩]
          folders := [{ id := "photos", devices := [DeviceId.zero.toHex] }] } = .ok theirs ∧
      ∃ ours offered,
        (build mine one "theirs" i).1 = .ok ours ∧ (build theirs .zero "mine" i).1 = .ok offered ∧
        (receive mine one offered hello i).1 = .ok ⟨[], [], hello⟩ ∧
        (receive theirs .zero ours hello i).1 = .ok ⟨["photos"], [], hello⟩ := by
  intro one mine theirs i hello
  refine ⟨by decide +kernel, by decide +kernel,
    [offer mine one "theirs" (5, 0) ⟨"photos", "photos", [one]⟩ none],
    [offer theirs .zero "mine" (5, 0) ⟨"photos", "photos", [.zero]⟩ none], ?_⟩
  decide +kernel

end Cluster

end BlockExchange
