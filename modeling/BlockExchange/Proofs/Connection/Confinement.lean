import BlockExchange.Proofs.Connection.Authentication
import BlockExchange.Proofs.Connection.Steps
import BlockExchange.Proofs.Exchange.Shared
import BlockExchange.Proofs.Index.Frame

namespace BlockExchange

/-- The cluster configuration behind the peer's hello offers the folder to the device. -/
def HasOffered (device : DeviceId) (heard : Bytes) (folder : String) : Prop :=
  ∃ hello left folders rest, Frame.helloFormat.Opens hello heard left ∧
    Frame.messageFormat.Opens (.clusterConfig folders) left rest ∧
    ∃ f ∈ folders, f.id = folder ∧ f.Lists device

theorem HasOffered.append {device : DeviceId} {heard : Bytes} {folder : String}
    (h : HasOffered device heard folder) (new : Bytes) : HasOffered device (heard ++ new) folder := by
  obtain ⟨hello, left, folders, rest, hhello, hfirst, hlists⟩ := h
  exact ⟨hello, left ++ new, folders, rest ++ new, hhello.append new, hfirst.append new, hlists⟩

theorem Control.Continues.ne_agreeing {before after : Control} (h : before.Continues after)
    (r : Except ExchangeError ClusterInfo) : after ≠ .agreeing r := by
  rintro rfl
  cases h

namespace Cluster

variable {c : Configuration} {peer : DeviceId} {i : Index}

theorem agreesApart_note (h : i.store.IsWellKeyed) (peer : DeviceId) (folder : String)
    (entry : Option OfferedDevice) : (note peer folder i entry).2.store.IsWellKeyed ∧
      i.store.AgreesApart folder peer (note peer folder i entry).2.store := by
  cases entry with
  | none => exact ⟨h, fun _ _ => rfl⟩
  | some entry => exact Index.agreesApart_receiveAnnouncement h folder peer _ _

theorem answer_receiveFolders (h : i.store.IsWellKeyed) (folders : List OfferedFolder)
    (info : ClusterInfo) :
    (receiveFolders c peer folders info i).2.store.IsWellKeyed ∧
      ∀ q : Query, (∀ f ∈ folders, Shares c peer f → q.IsApart f.id peer) →
        ((receiveFolders c peer folders info i).2.store.answer q).1 = (i.store.answer q).1 := by
  induction folders generalizing info i with
  | nil => exact ⟨h, fun _ _ => rfl⟩
  | cons f rest ih =>
    by_cases hshares : Shares c peer f
    · obtain ⟨hkeyed, hnote⟩ := agreesApart_note h peer f.id (f.devices.find? (·.id = peer))
      rw [receiveFolders_of_shares hshares]
      split <;> rename_i heq <;> rw [heq] at hkeyed hnote
      · exact ⟨hkeyed, fun q hq => hnote q (hq f List.mem_cons_self hshares)⟩
      · obtain ⟨hkeyed', hrest⟩ := ih hkeyed { info with shared := insertId f.id info.shared }
        refine ⟨hkeyed', fun q hq => ?_⟩
        refine (hrest q fun f' hf' => hq f' (List.mem_cons_of_mem _ hf')).trans ?_
        exact hnote q (hq f List.mem_cons_self hshares)
    · obtain ⟨new, heq⟩ := receiveFolders_of_not_shares hshares rest info
      rw [heq]
      obtain ⟨hkeyed, hrest⟩ := ih h { info with new }
      exact ⟨hkeyed, fun q hq => hrest q fun f' hf' => hq f' (List.mem_cons_of_mem _ hf')⟩

end Cluster

namespace Connection

variable {c c' : Connection} {x : Surroundings} {now : Nat} {i i' : Index}

def Knows (c : Connection) (info : ClusterInfo) : Prop :=
  c.reader.info? = some info ∨ c.control = .agreeing (.ok info)

structure KeepsSharing (c c' : Connection) : Prop where
  device : c'.device = c.device
  knows : ∀ info, c'.Knows info → c.Knows info

theorem KeepsSharing.refl (c : Connection) : c.KeepsSharing c := ⟨rfl, fun _ h => h⟩

theorem keepsSharing_leave (x : Surroundings) (now : Nat) (e : Exit) (c : Connection) :
    c.KeepsSharing (c.leave x now e) := by
  obtain ⟨stream, -, ⟨s, deadline, heq⟩ | heq⟩ := c.leave_cases x now e <;> rw [heq]
  · exact ⟨rfl, fun _ h => .inl (h.resolve_right nofun)⟩
  · exact ⟨rfl, fun _ h => h.elim nofun nofun⟩

theorem TakesUp.keepsSharing {t : Topic} (h : c.TakesUp t c') : c.KeepsSharing c' := by
  cases h <;> exact ⟨rfl, fun _ h => h⟩

theorem Treats.keepsSharing {t : Topic} (h : Treats x now c t c') : c.KeepsSharing c' := by
  cases h with
  | close | unknown | exit => exact c.keepsSharing_leave x now _
  | _ => exact ⟨rfl, fun _ h => h⟩

theorem keepsSharing_read {α : Type} {f : Frame.Format α} {r : Incoming}
    {p : Progress Incoming (Except ExchangeError α)} (h : c.read f r = some (p, c')) :
    c.KeepsSharing c' := by
  obtain ⟨_, _, _, _, rfl | rfl⟩ := read_eq_some h <;> exact ⟨rfl, fun _ h => h⟩

theorem KeepsSharing.trans {c'' : Connection} (h : c.KeepsSharing c') (h' : c'.KeepsSharing c'') :
    c.KeepsSharing c'' :=
  ⟨h'.device.trans h.device, fun info hinfo => h.knows info (h'.knows info hinfo)⟩

theorem Works.keepsSharing (h : c.Works c') : c.KeepsSharing c' := by
  cases h with
  | going hs => exact ⟨rfl, fun _ h => h⟩
  | @done stream w workers hs r =>
    cases hw : w.errand <;> cases r <;> exact ⟨rfl, fun _ h => h⟩

theorem KeepsAlive.keepsSharing (h : c.KeepsAlive c') : c.KeepsSharing c' := by
  cases h <;> exact ⟨rfl, fun _ h => h⟩

theorem Calls.keepsSharing (h : c.Calls c') : c.KeepsSharing c' := by
  cases h <;> exact ⟨rfl, fun _ h => h⟩

theorem take_cases {info : ClusterInfo} (hinfo : c.reader.info? = some info) (m : Message)
    (i : Index) : c.KeepsSharing (c.take info m i).2 ∧ ((c.take info m i).1 = i ∨
      ∃ p : IndexPart, info.hasFolder p.folder ∧
        (c.take info m i).1 = (i.merge p.folder c.device p.files).2) := by
  have hsame : ∀ info', some info = some info' ∨ c.control = .agreeing (.ok info') →
      c.Knows info' :=
    fun info' h => h.imp_left hinfo.trans
  cases m with
  | index p | indexUpdate p =>
    unfold take
    dsimp only
    split_ifs with hfolder
    · exact ⟨⟨rfl, hsame⟩, .inr ⟨p, hfolder, rfl⟩⟩
    · exact ⟨⟨rfl, hsame⟩, .inl rfl⟩
  | response r | request r => exact ⟨⟨rfl, hsame⟩, .inl rfl⟩
  | ping => exact ⟨⟨rfl, hsame⟩, .inl rfl⟩
  | _ => exact ⟨⟨rfl, fun _ h => h.imp_left nofun⟩, .inl rfl⟩

theorem merged_cases {info : ClusterInfo} (hinfo : c.reader.info? = some info) (folder : String)
    (r : Except ExchangeError Index.Received) (i : Index) :
    c.KeepsSharing (c.merged info folder r i).2 ∧ (c.merged info folder r i).1.store = i.store := by
  unfold merged
  split
  · exact ⟨⟨rfl, fun _ h => h.imp_left hinfo.trans⟩, i.store_publish _ _ _⟩
  · exact ⟨⟨rfl, fun _ h => h.imp_left hinfo.trans⟩, rfl⟩
  · exact ⟨⟨rfl, fun _ h => h.imp_left nofun⟩, rfl⟩

end Connection

namespace Course

variable {x : Surroundings} {device : DeviceId} {before : Store} {c : Course} {i : Index} {s : Session}

def IsShared (x : Surroundings) (device : DeviceId) (heard : Bytes) (folder : String) : Prop :=
  x.configuration.Accepts folder device ∧ HasOffered x.configuration.device heard folder

def IsOutside (x : Surroundings) (device : DeviceId) (heard : Bytes) (q : Query) : Prop :=
  ∀ folder, IsShared x device heard folder → q.IsApart folder device

theorem IsOutside.of_append {heard new : Bytes} {q : Query}
    (h : IsOutside x device (heard ++ new) q) : IsOutside x device heard q :=
  fun folder hshared => h folder ⟨hshared.1, hshared.2.append new⟩

structure IsConfined (x : Surroundings) (device : DeviceId) (before : Store) (c : Course) : Prop where
  peer : c.session.connection.device = device
  keyed : c.index.store.IsWellKeyed
  shared : ∀ info, c.session.connection.Knows info → ∀ folder, info.hasFolder folder →
    IsShared x device c.heard folder
  answers : ∀ q, IsOutside x device c.heard q → (c.index.store.answer q).1 = (before.answer q).1

theorem IsConfined.proceed (h : c.IsConfined x device before)
    (hs : c.session.connection.KeepsSharing s.connection) (hkeyed : i.store.IsWellKeyed)
    (hanswers : ∀ q, IsOutside x device c.heard q →
      (i.store.answer q).1 = (c.index.store.answer q).1) :
    (c.proceed i s).IsConfined x device before where
  peer := hs.device.trans h.peer
  keyed := hkeyed
  shared info hinfo folder hfolder := by
    have hshared := h.shared info (hs.knows info hinfo) folder hfolder
    exact ⟨hshared.1, hshared.2.append _⟩
  answers q hq := (hanswers q hq.of_append).trans (h.answers q hq.of_append)

theorem IsConfined.proceed_store (h : c.IsConfined x device before)
    (hs : c.session.connection.KeepsSharing s.connection) (hi : i.store = c.index.store) :
    (c.proceed i s).IsConfined x device before :=
  h.proceed hs (hi ▸ h.keyed) fun q _ => by rw [hi]

theorem IsConfined.notice (h : c.IsConfined x device before) {folders : List OfferedFolder}
    {hello : Hello} (hoffered : ∀ f ∈ folders, f.Lists x.configuration.device →
      HasOffered x.configuration.device c.heard f.id)
    {r : Except ExchangeError ClusterInfo}
    (hi : Cluster.receive x.configuration device folders hello c.index = (r, i))
    (hs : s.connection = { c.session.connection with control := .agreeing r, reader := .idle }) :
    (c.proceed i s).IsConfined x device before := by
  have hunfold : Cluster.receiveFolders x.configuration device folders ⟨[], [], hello⟩ c.index =
      (r, i) := hi
  obtain ⟨hkeyed, hanswers⟩ := hunfold ▸ Cluster.answer_receiveFolders h.keyed folders ⟨[], [], hello⟩
  have hshares : ∀ f ∈ folders, Cluster.Shares x.configuration device f →
      IsShared x device c.heard f.id := fun f hf hshares => ⟨hshares.1, hoffered f hf hshares.2⟩
  refine ⟨(congrArg Connection.device hs).trans h.peer, hkeyed, ?_, ?_⟩
  · intro info hinfo folder hfolder
    have hr : r = .ok info := by
      rw [show (c.proceed i s).session.connection = s.connection from rfl, hs] at hinfo
      rcases hinfo with ⟨⟨⟩⟩ | hagreeing
      exact Control.agreeing.inj hagreeing
    have hok : (Cluster.receiveFolders x.configuration device folders ⟨[], [], hello⟩ c.index).1 =
        .ok info := by rw [hunfold, hr]
    have hmem : folder ∈ info.shared := by simpa [ClusterInfo.hasFolder] using hfolder
    obtain hnone | ⟨f, hf, hf', rfl⟩ := (Cluster.mem_shared_receiveFolders hok folder).mp hmem
    · cases hnone
    · have hshared := hshares f hf hf'
      exact ⟨hshared.1, hshared.2.append _⟩
  · intro q hq
    refine (hanswers q fun f hf hf' => ?_).trans (h.answers q hq.of_append)
    exact hq.of_append f.id (hshares f hf hf')

theorem IsConfined.control_step (h : c.IsConfined x device before) {certificate? : Option Bytes}
    (hsound : c.Sound x device certificate?)
    (hcontrols : c.session.connection.Controls x c.now c.index i s.connection) :
    (c.proceed i s).IsConfined x device before := by
  -- What has been read of a cluster configuration is an offer of the peer.
  have hoffered : ∀ {hello mine folders}, c.session.connection.control = .clustering hello mine →
      c.session.connection.reader.first? = some (.ok (.clusterConfig folders)) →
      ∀ f ∈ folders, f.Lists x.configuration.device →
        HasOffered x.configuration.device c.heard f.id := by
    intro hello mine folders hc hr f hf hlists
    obtain ⟨hello', left, hhello, hfirst⟩ := hsound.opens_first hc hr
    exact ⟨hello', left, folders, _, hhello, hfirst, f, hf, rfl, hlists⟩
  have hends : ∀ {c₀ c₁ : Connection}, c₁.device = c₀.device → c₁.reader.info? = none →
      (∀ info, c₁.control ≠ .agreeing (.ok info)) → c₀.KeepsSharing c₁ := fun hd hr hc =>
    ⟨hd, fun info hknows => hknows.elim (fun hi => nomatch hr.symm.trans hi) (absurd · (hc info))⟩
  generalize hs : s.connection = c' at hcontrols
  cases hcontrols with
  | opening mine hc => exact h.proceed_store (hs ▸ hends rfl rfl nofun) rfl
  | deferral hc hi => exact h.proceed_store (hs ▸ ⟨rfl, fun _ h => h⟩) rfl
  | writing hstream hc =>
    exact h.proceed_store (hs ▸ ⟨rfl, fun _ h => .inl (h.resolve_right (hc.ne_agreeing _))⟩) rfl
  | surrender e hstream hc => exact h.proceed_store (hs ▸ hends rfl rfl nofun) rfl
  | introduction folders hc hr => exact h.proceed_store (hs ▸ hends rfl rfl nofun) rfl
  | offer mine hc => exact h.proceed_store (hs ▸ hends rfl rfl nofun) rfl
  | notice hc hr hi =>
    rw [h.peer] at hi
    exact h.notice (hoffered hc hr) hi hs
  | @agreement info hc =>
    refine h.proceed_store (hs ▸ ⟨rfl, fun info' hknows => ?_⟩) rfl
    obtain rfl : info = info' := Option.some.inj (hknows.resolve_right nofun)
    exact .inr hc
  | @failure info rest mine stream e hstream hc =>
    have hleave := Connection.keepsSharing_leave x c.now (.failed e)
      { c.session.connection with stream }
    exact h.proceed_store (hs ▸ ⟨hleave.device, hleave.knows⟩) rfl
  | announced hc =>
    exact h.proceed_store (hs ▸ ⟨rfl, fun _ h => .inl (h.resolve_right nofun)⟩) rfl
  | @attention info t c₁ hc ht =>
    have htake := (Connection.takesUp_of_topic? ht).keepsSharing
    exact h.proceed_store (hs ▸ htake.trans (c₁.treats x c.now info t).keepsSharing) rfl
  | parted hstream hc => exact h.proceed_store (hs ▸ hends rfl rfl nofun) rfl
  | finish hc =>
    exact h.proceed_store (hs ▸ ⟨rfl, fun _ h => .inl (h.resolve_right nofun)⟩) rfl

theorem IsConfined.reader_step (h : c.IsConfined x device before)
    (hstep : c.session.connection.stepReader c.index = some (i, s.connection)) :
    (c.proceed i s).IsConfined x device before := by
  have hreads := Connection.reads_of_step hstep
  generalize hs : s.connection = c' at hreads
  cases hreads with
  | handshake hc hr =>
    refine h.proceed_store ?_ rfl
    rw [hs]
    refine ⟨rfl, fun info hknows => .inr (hknows.resolve_left fun hinfo => ?_)⟩
    cases hr.symm.trans hinfo
  | going hr hread =>
    have hkeeps := Connection.keepsSharing_read hread
    refine h.proceed_store ?_ rfl
    rw [hs]
    refine ⟨hkeeps.device, fun info' hknows => ?_⟩
    obtain hinfo | hcontrol := hknows
    · exact .inl ((congrArg Reader.info? hr).trans hinfo)
    · exact hkeeps.knows info' (.inr hcontrol)
  | failure hr hread =>
    have hkeeps := Connection.keepsSharing_read hread
    refine h.proceed_store ?_ rfl
    rw [hs]
    exact ⟨hkeeps.device, fun info' hknows => hkeeps.knows info' (.inr (hknows.resolve_left nofun))⟩
  | @message info r m c₁ hr hread =>
    have hread' := Connection.keepsSharing_read hread
    have hinfo₁ : c₁.reader.info? = some info := by
      obtain ⟨_, _, _, _, rfl | rfl⟩ := Connection.read_eq_some hread <;>
        exact congrArg Reader.info? hr
    obtain ⟨htake, hsame | ⟨p, hfolder, hmerge⟩⟩ := Connection.take_cases hinfo₁ m c.index
    · exact h.proceed_store (hs ▸ hread'.trans htake) (congrArg Index.store hsame)
    · rw [hread'.device, h.peer] at hmerge
      obtain ⟨hkeyed, hanswers⟩ := Index.agreesApart_merge h.keyed p.folder device p.files
      refine h.proceed (hs ▸ hread'.trans htake) (hmerge ▸ hkeyed) fun q hq => ?_
      rw [hmerge]
      have hknows : c.session.connection.Knows info := .inl (congrArg Reader.info? hr)
      exact hanswers q (hq p.folder (h.shared info hknows p.folder hfolder))
  | @merged info folder r hr =>
    have hinfo : c.session.connection.reader.info? = some info := congrArg Reader.info? hr
    obtain ⟨hkeeps, hstore⟩ := Connection.merged_cases hinfo folder r c.index
    exact h.proceed_store (hs ▸ hkeeps) hstore

theorem IsConfined.step (h : c.IsConfined x device before) {certificate? : Option Bytes}
    (hsound : c.Sound x device certificate?) {a : Agent}
    (hstep : c.session.connection.step x c.now a c.index = some (i, s.connection)) :
    (c.proceed i s).IsConfined x device before := by
  cases Connection.acts_of_step hstep with
  | control hcontrol => exact h.control_step hsound (Connection.controls_of_step hcontrol)
  | deferral hdeferral => exact h.control_step hsound (Connection.controls_of_deferral hdeferral)
  | reader hread => exact h.reader_step hread
  | keepAlive hkeep => exact h.proceed_store (Connection.keepsAlive_of_step hkeep).keepsSharing rfl
  | worker hwork => exact h.proceed_store (Connection.works_of_step hwork).keepsSharing rfl
  | submitter hsubmitter =>
    exact h.proceed_store (Connection.calls_of_submitter hsubmitter).keepsSharing rfl
  | caller hcaller => exact h.proceed_store (Connection.calls_of_caller hcaller).keepsSharing rfl

theorem keepsSharing_of_isIdle {new : Bytes} (h : c.session.IsIdle s new) :
    c.session.connection.KeepsSharing s.connection :=
  ⟨h.device, fun _ => Or.imp (h.reader ▸ ·) (h.control ▸ ·)⟩

theorem IsConfined.move (h : c.IsConfined x device before) {certificate? : Option Bytes}
    (hsound : c.Sound x device certificate?) {m : Move} (hm : ∀ i, m ≠ .elsewhere i) :
    (c.move x m).IsConfined x device before := by
  cases m with
  | party p =>
    have hturn := c.takesTurn_move x p
    generalize c.move x (.party p) = c₁ at hturn ⊢
    cases hturn with
    | waiting => exact h
    | agent hagent => exact h.step hsound hagent
    | peer _ hpeer =>
      obtain ⟨new, hidle⟩ := hpeer.isIdle
      exact h.proceed_store (keepsSharing_of_isIdle hidle) rfl
  | incident e =>
    exact h.proceed_store (keepsSharing_of_isIdle (Session.isIdle_undergo e c.session)) rfl
  | telling =>
    exact h.proceed_store (keepsSharing_of_isIdle (Session.isIdle_takeAnswers c.session)) rfl
  | peer p => exact h.proceed_store (.refl _) rfl
  | elsewhere i => exact absurd rfl (hm i)
  | time now => exact ⟨h.peer, h.keyed, h.shared, h.answers⟩

theorem IsConfined.run (h : c.IsConfined x device before) {certificate? : Option Bytes}
    (hsound : c.Sound x device certificate?) {moves : List Move}
    (hmoves : ∀ m ∈ moves, ∀ i, m ≠ .elsewhere i) : (c.run x moves).IsConfined x device before := by
  induction moves generalizing c with
  | nil => exact h
  | cons m rest ih =>
    exact ih (h.move hsound (hmoves m List.mem_cons_self)) (hsound.move m)
      fun m' hm' => hmoves m' (List.mem_cons_of_mem _ hm')

theorem isConfined_starting (x : Surroundings) (device : DeviceId) (address : String)
    (found : Option (Stream × Peer)) {i : Index} (hi : i.store.IsWellKeyed) (now : Nat) :
    (starting (.dialed device address found) i now).IsConfined x device i.store :=
  ⟨rfl, hi, fun _ h => h.elim nofun nofun, fun _ _ => rfl⟩

/-- While nobody else uses the index, a connection leaves all folders alone that our configuration
does not share with the peer or that the peer has not offered to us, whatever it says. In the others
it leaves alone the markers of all other devices; and it leaves the epoch alone. -/
theorem unshared_unchanged (x : Surroundings) (device : DeviceId) (address : String)
    (found : Option (Stream × Peer)) {i : Index} (hi : i.store.IsWellKeyed) (now : Nat)
    {moves : List Move} (hmoves : ∀ m ∈ moves, ∀ j, m ≠ .elsewhere j) :
    let c := (starting (.dialed device address found) i now).run x moves
    (∀ folder, ¬x.configuration.Accepts folder device ∨
        ¬HasOffered x.configuration.device c.heard folder → ∀ q : Query, q.IsAbout folder →
          (c.index.store.answer q).1 = (i.store.answer q).1) ∧
      (∀ folder other, other ≠ device →
        (c.index.store.answer (.marker folder other)).1 =
          (i.store.answer (.marker folder other)).1) ∧
      (c.index.store.answer .epoch).1 = (i.store.answer .epoch).1 := by
  intro c
  have h : c.IsConfined x device i.store :=
    (isConfined_starting x device address found hi now).run
      (sound_starting x device address found i now) hmoves
  refine ⟨?_, ?_, ?_⟩
  · intro folder hfolder q hq
    apply h.answers
    rintro shared ⟨haccepts, hoffered⟩
    apply hq.isApart
    rintro rfl
    exact hfolder.elim (absurd haccepts) (absurd hoffered)
  · intro folder other hother
    exact h.answers _ fun _ _ _ => hother
  · exact h.answers _ fun _ _ => trivial

theorem unshared_unchanged_photos :
    let peer : DeviceId := .ofCertificate [1, 2]
    let configuration : Configuration :=
      ⟨.zero, "here", [⟨"photos", "photos", [peer]⟩, ⟨"music", "music", []⟩]⟩
    let x : Surroundings := { configuration, settings := {}, serve _ r := { id := r.id } }
    let offer (folder : String) : OfferedFolder :=
      { id := folder, devices := [⟨peer, "there", [], 2, false, 7⟩, ⟨.zero, "here", [], 0, false, 0⟩] }
    let part (folder : String) : IndexPart :=
      ⟨folder, [{ name := "a", fileType := 1, versions := [⟨1, 1⟩], sequence := 1 }]⟩
    let messages : List Message :=
      [.clusterConfig [offer "photos", offer "music"], .index (part "music"), .index (part "photos")]
    let said := (Frame.encodeHello ⟨"there", "client", "1"⟩).toOption.getD [] ++
      messages.flatMap fun m => (Frame.encode m).toOption.getD []
    let control := List.replicate 6 (Move.party (.agent .control))
    let reader := List.replicate 9 (Move.party (.agent .reader))
    let moves := .party .peerWriting :: control ++ reader ++ control ++ reader ++ control ++ reader
    let i : Index := { store := .memory (.fresh 5) }
    let found : Option (Stream × Peer) := some ({ certificate := [1, 2] }, { outgoing := said })
    let after := ((starting (.dialed peer "there" found) i 0).run x moves).index
    i.store.IsWellKeyed ∧ (∀ m ∈ moves, ∀ j, m ≠ .elsewhere j) ∧
      ¬x.configuration.Accepts "music" peer ∧
      (after.store.answer (.file "photos" "a")).1 ≠ (i.store.answer (.file "photos" "a")).1 ∧
      (after.store.answer (.file "music" "a")).1 = (i.store.answer (.file "music" "a")).1 := by
  intro peer configuration x offer part messages said control reader moves i found after
  have hi : i.store.IsWellKeyed := Memory.isWellKeyed_fresh 5
  have hmoves : ∀ m ∈ moves, ∀ j, m ≠ .elsewhere j := by
    simp [moves, control, reader]
  have haccepts : ¬x.configuration.Accepts "music" peer := by
    rintro ⟨f, hf, hshared⟩
    cases hf
    cases hshared
  have hchanged : (after.store.answer (.file "photos" "a")).1 ≠
      (i.store.answer (.file "photos" "a")).1 := by
    decide +kernel
  have hrun := unshared_unchanged x peer "there" found hi 0 hmoves
  have hafter : after = ((starting (.dialed peer "there" found) i 0).run x moves).index := rfl
  have hsame : (after.store.answer (.file "music" "a")).1 =
      (i.store.answer (.file "music" "a")).1 := by
    rw [hafter]
    exact hrun.1 "music" (.inl haccepts) (.file "music" "a") rfl
  exact ⟨hi, hmoves, haccepts, hchanged, hsame⟩

end Course

end BlockExchange
