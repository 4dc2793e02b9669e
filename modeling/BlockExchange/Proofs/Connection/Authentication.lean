import BlockExchange.Proofs.Connection.Handshake
/-!
Who the peer is comes first. Until the peer has shown the certificate that is expected of it and has
introduced itself, nothing but our own hello gets onto the stream and the index stays as it is; and
only a cluster configuration makes the connection an active one (`Course.active_only_if_authenticated`).
-/

namespace BlockExchange

def Surroundings.helloFrame (x : Surroundings) : Except CodecError Bytes :=
  Frame.encodeHello (.ofConfiguration x.configuration x.settings)

/-- The certificate is that of the device, and what has been heard begins with a hello in which the
peer names itself and its program. This is left behind the hello. -/
structure IsIntroduced (device : DeviceId) (certificate? : Option Bytes) (heard : Bytes)
    (hello : Hello) (left : Bytes) : Prop where
  identity : ∃ certificate ∈ certificate?, Sha256.digest certificate = device.bytes
  deviceName : Text.allBlank hello.deviceName = false
  clientName : Text.allBlank hello.clientName = false
  opens : Frame.helloFormat.Opens hello heard left

def HasAgreed (device : DeviceId) (certificate? : Option Bytes) (heard : Bytes) : Prop :=
  ∃ hello left folders rest, IsIntroduced device certificate? heard hello left ∧
    Frame.messageFormat.Opens (.clusterConfig folders) left rest

variable {device : DeviceId} {certificate? : Option Bytes} {heard left : Bytes}

theorem IsIntroduced.append {hello : Hello} (h : IsIntroduced device certificate? heard hello left)
    (new : Bytes) : IsIntroduced device certificate? (heard ++ new) hello (left ++ new) :=
  ⟨h.identity, h.deviceName, h.clientName, h.opens.append new⟩

theorem HasAgreed.append (h : HasAgreed device certificate? heard) (new : Bytes) :
    HasAgreed device certificate? (heard ++ new) := by
  obtain ⟨hello, left, folders, rest, hintro, hfirst⟩ := h
  exact ⟨hello, left ++ new, folders, rest ++ new, hintro.append new, hfirst.append new⟩

namespace Course

variable {x : Surroundings} {c : Course} {s : Session} {i : Index} {l : Link}

theorem proceed_of_link (h : s.connection.link = c.session.connection.link) (i : Index) :
    (c.proceed i s).heard = c.heard ∧ (c.proceed i s).written = c.written := by
  unfold proceed Session.inbound Session.outbound
  rw [h]
  simp only [Bytes.behind_self, List.append_nil, and_self]

theorem proceed_of_write {a : Agent} {sending : Sending} {c' : Connection}
    {p : Progress Sending (Except ExchangeError Unit)} (hl : c.session.connection.link = some l)
    (hw : c.session.connection.write a sending = some (p, c')) (hs : s.connection.link = c'.link)
    (i : Index) :
    ∃ stream outbound, c' = { c.session.connection with stream := some stream } ∧
      s.connection.link = some { l with outbound } ∧ (c.proceed i s).heard = c.heard ∧
      ∀ {frame}, sending.IsAmid frame c.written → (c.proceed i s).written.IsPartOf frame ∧
        ∀ sending', p = .going sending' → sending'.IsAmid frame (c.proceed i s).written := by
  obtain ⟨stream, new, hlink, rfl, hamid⟩ := Connection.write_of_link hl hw
  have hl' : s.connection.link = some { l with outbound := l.outbound ++ new } := by
    rw [hs, ← hlink]
    rfl
  have hheard : (c.proceed i s).heard = c.heard := by
    rw [proceed, Session.inbound, Session.inbound, hl, hl', Option.elim_some, Option.elim_some,
      Bytes.behind_self, List.append_nil]
  have hwritten : (c.proceed i s).written = c.written ++ new := by
    rw [proceed, Session.outbound, Session.outbound, hl, hl', Option.elim_some, Option.elim_some,
      Bytes.behind_append]
  refine ⟨stream, _, rfl, hl', hheard, fun h => ?_⟩
  rw [hwritten]
  exact hamid h

theorem proceed_of_reading {inbound : Bytes} (hl : c.session.connection.link = some l)
    (hl' : s.connection.link = some { l with inbound }) (hsuffix : inbound <:+ l.inbound)
    (i : Index) : (c.proceed i s).heard = c.heard ∧ (c.proceed i s).written = c.written := by
  unfold proceed Session.inbound Session.outbound
  rw [hl, hl']
  simp only [Option.elim_some, Bytes.behind_of_suffix hsuffix, Bytes.behind_self, List.append_nil,
    and_self]

theorem proceed_of_reader {α : Type} {f : Frame.Format α} {reading : Incoming → Reader}
    {done : Except ExchangeError α → Reader} (hone : Reader.ReadsOne f reading done)
    (hq : c.session.connection.IsQuiet device) (hl : c.session.connection.link = some l)
    (hreader : c.session.connection.reader.IsAt f reading done left l.inbound)
    (hread : c.session.connection.stepReader c.index = some (i, s.connection)) :
    i = c.index ∧ s.connection.control = c.session.connection.control ∧
      s.connection.IsQuiet device ∧ (c.proceed i s).heard = c.heard ∧
      (c.proceed i s).written = c.written ∧ ∃ inbound,
        s.connection.link = some { l with inbound } ∧
          s.connection.reader.IsAt f reading done left inbound := by
  obtain ⟨rfl, stream, inbound, reader, hsuffix, hlink, hs, hreader'⟩ :=
    hreader.step hone hl hread
  have hl' : s.connection.link = some { l with inbound } := by
    rw [hs, ← hlink]
    rfl
  obtain ⟨hheard, hwritten⟩ := proceed_of_reading hl hl' hsuffix c.index
  refine ⟨rfl, by rw [hs], ?_, hheard, hwritten, inbound, hl', ?_⟩
  · exact hs ▸ ⟨hq.device, hq.keepAlive, hq.workers⟩
  · exact congrArg Connection.reader hs.symm ▸ hreader'

theorem proceed_of_serves {new : Bytes}
    (h : Link.Serves c.session.connection.link s.connection.link new) (i : Index) :
    (c.proceed i s).heard = c.heard ++ new ∧ (c.proceed i s).written = c.written ∧
      s.inbound = c.session.inbound ++ new := by
  unfold proceed Session.inbound Session.outbound
  dsimp only
  generalize c.session.connection.link = before at h ⊢
  generalize s.connection.link = after at h ⊢
  cases h with
  | none => exact ⟨rfl, List.append_nil _, rfl⟩
  | some l new hsuffix =>
    refine ⟨congrArg (c.heard ++ ·) (Bytes.behind_append _ _), ?_, rfl⟩
    exact (congrArg (c.written ++ ·) (Bytes.behind_of_suffix hsuffix)).trans (List.append_nil _)

structure IsUntouched (x : Surroundings) (c : Course) : Prop where
  index : c.index = c.outside
  written : c.written.IsPartOf x.helloFrame

/-- How far a connection is, and what is known of the peer by then. -/
inductive Stage (x : Surroundings) (device : DeviceId) (certificate? : Option Bytes) (c : Course) :
    Prop
  | dialing (hc : c.session.connection.control = .dialing)
    (hq : c.session.connection.IsQuiet device) (hreader : c.session.connection.reader = .idle)
    (hcertificate : c.session.connection.link.map (·.certificate) = certificate?)
    (hheard : c.heard = c.session.inbound) (hwritten : c.written = []) (hindex : c.index = c.outside)
  | greeting {mine : Option Sending} {l : Link}
    (hc : c.session.connection.control = .greeting mine)
    (hq : c.session.connection.IsQuiet device) (hl : c.session.connection.link = some l)
    (hcertificate : certificate? = some l.certificate)
    (hreader : c.session.connection.reader.IsAtHello c.heard l.inbound)
    (hmine : Sending.HasWritten x.helloFrame c.written mine) (hindex : c.index = c.outside)
  | building {hello : Hello} {folders : Except ExchangeError (List OfferedFolder)} {l : Link}
    (hc : c.session.connection.control = .building hello folders)
    (hq : c.session.connection.IsQuiet device) (hreader : c.session.connection.reader = .idle)
    (hl : c.session.connection.link = some l)
    (hintro : IsIntroduced device certificate? c.heard hello l.inbound)
  | clustering {hello : Hello} {mine : Option Sending} {l : Link} {left : Bytes}
    (hc : c.session.connection.control = .clustering hello mine)
    (hq : c.session.connection.IsQuiet device) (hl : c.session.connection.link = some l)
    (hintro : IsIntroduced device certificate? c.heard hello left)
    (hreader : c.session.connection.reader.IsAtFirst left l.inbound)
  | agreeing {info : Except ExchangeError ClusterInfo} {hello : Hello} {l : Link} {left : Bytes}
    {folders : List OfferedFolder} (hc : c.session.connection.control = .agreeing info)
    (hq : c.session.connection.IsQuiet device) (hreader : c.session.connection.reader = .idle)
    (hl : c.session.connection.link = some l)
    (hintro : IsIntroduced device certificate? c.heard hello left)
    (hopens : Frame.messageFormat.Opens (.clusterConfig folders) left l.inbound)
  | strange (hc : (∃ r, c.session.connection.control = .stopping r) ∨
      ∃ r, c.session.connection.control = .finished r)
    (hq : c.session.connection.IsQuiet device) (hreader : c.session.connection.reader = .idle)
    (hu : c.IsUntouched x)
  | known (hphases : .exchangingClusterConfig ∈ c.phases)
    (hrank : Phase.active.rank ≤ c.session.phase.rank)
    (hactive : c.session.phase = .active → HasAgreed device certificate? c.heard)

theorem Stage.introduced (h : c.Stage x device certificate?)
    (hp : c.session.phase = .exchangingClusterConfig) :
    ∃ hello left, IsIntroduced device certificate? c.heard hello left := by
  have hcontrol : c.session.connection.control.phase = .exchangingClusterConfig := hp
  cases h with
  | building hc hq hreader hl hintro => exact ⟨_, _, hintro⟩
  | clustering hc hq hl hintro => exact ⟨_, _, hintro⟩
  | agreeing hc hq hreader hl hintro => exact ⟨_, _, hintro⟩
  | dialing hc | greeting hc => rw [hc] at hcontrol; cases hcontrol
  | strange hc => obtain ⟨_, hc⟩ | ⟨_, hc⟩ := hc <;> rw [hc] at hcontrol <;> cases hcontrol
  | known hphases hrank => rw [hp] at hrank; exact absurd hrank (by decide)

theorem Stage.agreed (h : c.Stage x device certificate?) (hp : c.session.phase = .active) :
    HasAgreed device certificate? c.heard := by
  have hcontrol : c.session.connection.control.phase = .active := hp
  cases h with
  | known hphases hrank hactive => exact hactive hp
  | dialing hc | greeting hc | building hc | clustering hc | agreeing hc =>
    rw [hc] at hcontrol
    cases hcontrol
  | strange hc => obtain ⟨_, hc⟩ | ⟨_, hc⟩ := hc <;> rw [hc] at hcontrol <;> cases hcontrol

structure Sound (x : Surroundings) (device : DeviceId) (certificate? : Option Bytes) (c : Course) :
    Prop where
  history : Phase.IsHistory c.phases c.session.phase
  stage : c.Stage x device certificate?
  introduced : .exchangingClusterConfig ∈ c.phases →
    ∃ hello left, IsIntroduced device certificate? c.heard hello left
  agreed : .active ∈ c.phases → HasAgreed device certificate? c.heard

theorem Sound.untouched (h : c.Sound x device certificate?)
    (hphases : .exchangingClusterConfig ∉ c.phases) : c.IsUntouched x := by
  cases h.stage with
  | dialing hc hq hreader hcertificate hheard hwritten hindex => exact ⟨hindex, .inl hwritten⟩
  | greeting hc hq hl hcertificate hreader hmine hindex => exact ⟨hindex, hmine.isPartOf⟩
  | building hc | clustering hc | agreeing hc =>
    have hp : c.session.phase = .exchangingClusterConfig := congrArg Control.phase hc
    exact absurd (hp ▸ h.history.mem) hphases
  | strange hc hq hreader hu => exact hu
  | known hknown => exact absurd hknown hphases

theorem Sound.opens_first (h : c.Sound x device certificate?) {hello : Hello} {mine : Option Sending}
    {m : Message} (hc : c.session.connection.control = .clustering hello mine)
    (hr : c.session.connection.reader.first? = some (.ok m)) :
    ∃ hello left, Frame.helloFormat.Opens hello c.heard left ∧
      Frame.messageFormat.Opens m left c.session.inbound := by
  cases h.stage with
  | clustering hc' hq hl hintro hreader =>
    rw [Session.inbound, hl]
    exact ⟨_, _, hintro.opens, hreader.opens hr⟩
  | dialing hc' | greeting hc' | building hc' | agreeing hc' => cases hc.symm.trans hc'
  | strange hc' => obtain ⟨_, hc'⟩ | ⟨_, hc'⟩ := hc' <;> cases hc.symm.trans hc'
  | known hphases hrank =>
    rw [Session.phase, Connection.phase, hc] at hrank
    exact absurd hrank (by simp [Control.phase, Phase.rank])

theorem Sound.opens_agreement (h : c.Sound x device certificate?)
    {info : Except ExchangeError ClusterInfo} (hc : c.session.connection.control = .agreeing info) :
    ∃ hello left folders, Frame.helloFormat.Opens hello c.heard left ∧
      Frame.messageFormat.Opens (.clusterConfig folders) left c.session.inbound := by
  cases h.stage with
  | agreeing hc' hq hreader hl hintro hopens =>
    rw [Session.inbound, hl]
    exact ⟨_, _, _, hintro.opens, hopens⟩
  | dialing hc' | greeting hc' | building hc' | clustering hc' => cases hc.symm.trans hc'
  | strange hc' => obtain ⟨_, hc'⟩ | ⟨_, hc'⟩ := hc' <;> cases hc.symm.trans hc'
  | known hphases hrank =>
    rw [Session.phase, Connection.phase, hc] at hrank
    exact absurd hrank (by simp [Control.phase, Phase.rank])

theorem Sound.proceed (h : c.Sound x device certificate?) (hlead : c.session.phase.Leads s.phase)
    (hstage : (c.proceed i s).Stage x device certificate?) :
    (c.proceed i s).Sound x device certificate? where
  history := h.history.publish hlead
  stage := hstage
  introduced hmem := by
    rcases Phase.mem_publish.mp hmem with hold | hnew
    · obtain ⟨hello, left, hintro⟩ := h.introduced hold
      exact ⟨hello, _, hintro.append _⟩
    · exact hstage.introduced hnew.symm
  agreed hmem := by
    rcases Phase.mem_publish.mp hmem with hold | hnew
    · exact (h.agreed hold).append _
    · exact hstage.agreed hnew.symm

theorem Stage.idle {new : Bytes} (h : c.Stage x device certificate?)
    (hidle : c.session.IsIdle s new) : (c.proceed c.index s).Stage x device certificate? := by
  obtain ⟨hheard', hwritten', hinbound'⟩ := proceed_of_serves hidle.link c.index
  have hphase : s.phase = c.session.phase := congrArg Control.phase hidle.control
  have hsome : ∀ l, c.session.connection.link = some l →
      ∃ outbound, s.connection.link = some ⟨l.certificate, l.inbound ++ new, outbound⟩ :=
    fun l hl => (hl ▸ hidle.link).exists_eq_some
  cases h with
  | dialing hc hq hreader hcertificate hheard hwritten hindex =>
    refine .dialing (hidle.control.trans hc) (hidle.quiet hq) (hidle.reader.trans hreader) ?_ ?_
      (hwritten'.trans hwritten) hindex
    · exact hidle.link.certificate.trans hcertificate
    · rw [hheard', hheard]
      exact hinbound'.symm
  | greeting hc hq hl hcertificate hreader hmine hindex =>
    obtain ⟨outbound, hl'⟩ := hsome _ hl
    refine .greeting (hidle.control.trans hc) (hidle.quiet hq) hl' hcertificate ?_ ?_ hindex
    · rw [hheard']
      exact hidle.reader ▸ hreader.append new
    · rw [hwritten']
      exact hmine
  | building hc hq hreader hl hintro =>
    obtain ⟨outbound, hl'⟩ := hsome _ hl
    have hintro' := hintro.append new
    rw [← hheard'] at hintro'
    exact .building (hidle.control.trans hc) (hidle.quiet hq) (hidle.reader.trans hreader) hl' hintro'
  | agreeing hc hq hreader hl hintro hopens =>
    obtain ⟨outbound, hl'⟩ := hsome _ hl
    have hintro' := hintro.append new
    rw [← hheard'] at hintro'
    exact .agreeing (hidle.control.trans hc) (hidle.quiet hq) (hidle.reader.trans hreader) hl' hintro'
      (hopens.append new)
  | clustering hc hq hl hintro hreader =>
    obtain ⟨outbound, hl'⟩ := hsome _ hl
    have hintro' := hintro.append new
    rw [← hheard'] at hintro'
    exact .clustering (hidle.control.trans hc) (hidle.quiet hq) hl' hintro'
      (hidle.reader ▸ hreader.append new)
  | strange hc hq hreader hu =>
    refine .strange ?_ (hidle.quiet hq) (hidle.reader.trans hreader) ⟨hu.index, ?_⟩
    · exact hidle.control ▸ hc
    · rw [hwritten']
      exact hu.written
  | known hphases hrank hactive =>
    refine .known (Phase.mem_publish.mpr (.inl hphases)) ?_ ?_
    · exact hphase ▸ hrank
    · intro hp
      rw [hheard']
      exact (hactive (hphase ▸ hp)).append new

theorem Stage.surrender {c' : Connection} {mine : Option Sending} {e : ExchangeError}
    (hs : s.connection = c'.giveUp mine e) (hq : c'.IsQuiet device) (hindex : i = c.outside)
    (hwritten : (c.proceed i s).written.IsPartOf x.helloFrame) :
    (c.proceed i s).Stage x device certificate? := by
  refine .strange (.inl ⟨.error e, ?_⟩) ?_ ?_ ⟨hindex, hwritten⟩
  · exact congrArg Connection.control hs
  · exact hs ▸ hq.giveUp mine e
  · exact congrArg Connection.reader hs

theorem Stage.call_off {mine : Option Sending} {e : ExchangeError}
    (hs : s.connection = c.session.connection.giveUp mine e)
    (hq : c.session.connection.IsQuiet device) (hindex : i = c.outside)
    (hwritten : c.written.IsPartOf x.helloFrame) : (c.proceed i s).Stage x device certificate? := by
  have hlink : s.connection.link = c.session.connection.link := by
    rw [hs, Connection.link_giveUp]
  refine .surrender hs hq hindex ?_
  rw [(proceed_of_link hlink i).2]
  exact hwritten

theorem Stage.closing (hphases : .exchangingClusterConfig ∈ c.phases) (hp : s.phase = .closing)
    (i : Index) : (c.proceed i s).Stage x device certificate? := by
  refine .known (Phase.mem_publish.mpr (.inl hphases)) ?_ ?_
  · have hphase : (c.proceed i s).session.phase = .closing := hp
    rw [hphase]
    decide
  · intro hactive
    cases hp.symm.trans hactive

theorem Stage.dialing_step (hc : c.session.connection.control = .dialing)
    (hq : c.session.connection.IsQuiet device)
    (hcertificate : c.session.connection.link.map (·.certificate) = certificate?)
    (hheard : c.heard = c.session.inbound) (hwritten : c.written = []) (hindex : c.index = c.outside)
    (hstep : c.session.connection.stepControl x c.now c.index = some (i, s.connection)) :
    (c.proceed i s).Stage x device certificate? := by
  simp only [Connection.stepControl, hc] at hstep
  split_ifs at hstep with hstream <;> obtain ⟨rfl, hs⟩ := Prod.mk.inj (Option.some.inj hstep)
  · exact .call_off hs.symm hq hindex (.inl hwritten)
  · obtain ⟨stream, hstream⟩ := Option.ne_none_iff_exists'.mp
      (fun h => hstream (Option.isNone_iff_eq_none.mpr h))
    have hl := Connection.link_of_stream hstream
    have hlink : s.connection.link = c.session.connection.link := by
      rw [← hs]
      rfl
    obtain ⟨hheard', hwritten'⟩ := proceed_of_link hlink c.index
    refine .greeting (congrArg Connection.control hs.symm) ?_ (hlink.trans hl) ?_ ?_ ?_ hindex
    · exact hs ▸ ⟨hq.device, hq.keepAlive, hq.workers⟩
    · rw [← hcertificate, hl]
      rfl
    · have hinbound : c.session.inbound = stream.link.inbound := by
        rw [Session.inbound, hl]
        rfl
      rw [hheard', hheard, hinbound]
      exact congrArg Connection.reader hs ▸ Reader.isAt_start _ _ _ _
    · rw [hwritten', hwritten]
      exact Sending.isAmid_ofFrame _

theorem Stage.greeting_step {mine : Option Sending}
    (hc : c.session.connection.control = .greeting mine)
    (hq : c.session.connection.IsQuiet device) (hl : c.session.connection.link = some l)
    (hcertificate : certificate? = some l.certificate)
    (hreader : c.session.connection.reader.IsAtHello c.heard l.inbound)
    (hmine : Sending.HasWritten x.helloFrame c.written mine) (hindex : c.index = c.outside)
    (hstep : c.session.connection.stepControl x c.now c.index = some (i, s.connection)) :
    (c.proceed i s).Stage x device certificate? := by
  rw [Connection.stepControl_greeting hc] at hstep
  have hex := Connection.exchange_eq_some hstep
  generalize hs : s.connection = c' at hex
  have hwriting : ∀ {sending p c₁ mine'}, mine = some sending →
      c.session.connection.write .control sending = some (p, c₁) →
      s.connection = { c₁ with control := .greeting mine' } →
      (∀ sending', mine' = some sending' → p = .going sending') →
      (c.proceed c.index s).Stage x device certificate? := by
    rintro sending p c₁ mine' rfl hw hs hgoing
    have hlink := congrArg Connection.link hs
    obtain ⟨stream, outbound, rfl, hl', hheard', hamid⟩ := proceed_of_write hl hw hlink c.index
    refine .greeting (congrArg Connection.control hs) ?_ hl' hcertificate ?_ ?_ hindex
    · exact hs ▸ ⟨hq.device, hq.keepAlive, hq.workers⟩
    · rw [hheard']
      exact congrArg Connection.reader hs.symm ▸ hreader
    · cases mine' with
      | none => exact (hamid hmine).1
      | some sending' => exact (hamid hmine).2 _ (hgoing _ rfl)
  cases hex with
  | surrender e => exact .call_off hs hq hindex hmine.isPartOf
  | going hm hw => exact hwriting hm hw hs (by simp)
  | written hm hw => exact hwriting hm hw hs (by simp)
  | @failure _ _ e hm hw =>
    subst hm
    have hlink := (congrArg Connection.link hs).trans (Connection.link_giveUp none e _)
    obtain ⟨stream, outbound, rfl, -, -, hamid⟩ := proceed_of_write hl hw hlink c.index
    exact .surrender hs ⟨hq.device, hq.keepAlive, hq.workers⟩ hindex (hamid hmine).1
  | @both hello hm hr =>
    obtain ⟨hsame, ⟨e, heq⟩ | ⟨hidentity, folders, heq⟩⟩ := hq.greet hl x c.index hello
    · rw [heq] at hs
      exact .call_off hs hq (hsame.trans hindex) hmine.isPartOf
    · -- The certificate is right and the hello names who it is from.
      rw [heq] at hs
      have hlink : s.connection.link = c.session.connection.link := by
        rw [hs]
        rfl
      obtain ⟨hheard', -⟩ := proceed_of_link hlink (c.session.connection.greet x c.index hello).1
      have hintro : IsIntroduced device certificate? c.heard hello l.inbound :=
        ⟨⟨_, hcertificate, hidentity.1⟩, hidentity.2.1, hidentity.2.2, hreader.opens hr⟩
      rw [← hheard'] at hintro
      refine .building (congrArg Connection.control hs) ?_ (congrArg Connection.reader hs)
        (hlink.trans hl) hintro
      exact hs ▸ ⟨hq.device, hq.keepAlive, hq.workers⟩

theorem Stage.building_step {hello : Hello}
    {folders : Except ExchangeError (List OfferedFolder)}
    (hphases : .exchangingClusterConfig ∈ c.phases)
    (hc : c.session.connection.control = .building hello folders)
    (hq : c.session.connection.IsQuiet device) (hl : c.session.connection.link = some l)
    (hintro : IsIntroduced device certificate? c.heard hello l.inbound)
    (hstep : c.session.connection.stepControl x c.now c.index = some (i, s.connection)) :
    (c.proceed i s).Stage x device certificate? := by
  simp only [Connection.stepControl, hc] at hstep
  obtain ⟨rfl, hs⟩ := Prod.mk.inj (Option.some.inj hstep)
  cases folders with
  | error e => exact .closing hphases (congrArg Connection.phase hs.symm) c.index
  | ok folders =>
    have hlink : s.connection.link = c.session.connection.link := by
      rw [← hs]
      rfl
    rw [← (proceed_of_link hlink c.index).1] at hintro
    refine .clustering (congrArg Connection.control hs.symm) ?_ (hlink.trans hl) hintro ?_
    · exact hs ▸ ⟨hq.device, hq.keepAlive, hq.workers⟩
    · exact congrArg Connection.reader hs ▸ Reader.isAt_start _ _ _ _

theorem Stage.clustering_step {hello : Hello} {mine : Option Sending}
    (hphases : .exchangingClusterConfig ∈ c.phases)
    (hc : c.session.connection.control = .clustering hello mine)
    (hq : c.session.connection.IsQuiet device) (hl : c.session.connection.link = some l)
    (hintro : IsIntroduced device certificate? c.heard hello left)
    (hreader : c.session.connection.reader.IsAtFirst left l.inbound)
    (hstep : c.session.connection.stepControl x c.now c.index = some (i, s.connection)) :
    (c.proceed i s).Stage x device certificate? := by
  rw [Connection.stepControl_clustering hc] at hstep
  have hex := Connection.exchange_eq_some hstep
  generalize hs : s.connection = c' at hex
  have hwriting : ∀ {sending p c₁ mine'},
      c.session.connection.write .control sending = some (p, c₁) →
      s.connection = { c₁ with control := .clustering hello mine' } →
      (c.proceed c.index s).Stage x device certificate? := by
    intro sending p c₁ mine' hw hs
    have hlink := congrArg Connection.link hs
    obtain ⟨stream, outbound, rfl, hl', hheard', -⟩ := proceed_of_write hl hw hlink c.index
    refine .clustering (congrArg Connection.control hs) ?_ hl' (hheard' ▸ hintro) ?_
    · exact hs ▸ ⟨hq.device, hq.keepAlive, hq.workers⟩
    · exact congrArg Connection.reader hs.symm ▸ hreader
  cases hex with
  | surrender e => exact .closing hphases (congrArg Connection.phase hs) c.index
  | going hm hw => exact hwriting hw hs
  | written hm hw => exact hwriting hw hs
  | failure hm hw => exact .closing hphases (congrArg Connection.phase hs) c.index
  | @both m hm hr =>
    obtain ⟨e, heq⟩ | ⟨folders, rfl, heq⟩ := c.session.connection.agree_eq x c.index hello m
    · rw [heq] at hs ⊢
      exact .closing hphases (congrArg Connection.phase hs) _
    · rw [heq] at hs ⊢
      have hlink : s.connection.link = c.session.connection.link := by
        rw [hs]
        rfl
      rw [← (proceed_of_link hlink _).1] at hintro
      refine .agreeing (congrArg Connection.control hs) ?_ (congrArg Connection.reader hs)
        (hlink.trans hl) hintro (hreader.opens hr)
      exact hs ▸ ⟨hq.device, hq.keepAlive, hq.workers⟩

theorem Stage.agreeing_step {info : Except ExchangeError ClusterInfo}
    (hphases : .exchangingClusterConfig ∈ c.phases)
    (hc : c.session.connection.control = .agreeing info)
    (hagreed : HasAgreed device certificate? c.heard)
    (hstep : c.session.connection.stepControl x c.now c.index = some (i, s.connection)) :
    (c.proceed i s).Stage x device certificate? := by
  simp only [Connection.stepControl, hc] at hstep
  obtain ⟨rfl, hs⟩ := Prod.mk.inj (Option.some.inj hstep)
  cases info with
  | error e => exact .closing hphases (congrArg Connection.phase hs.symm) c.index
  | ok info =>
    have hlink : s.connection.link = c.session.connection.link := by
      rw [← hs]
      rfl
    have hp : (c.proceed c.index s).session.phase = .active := congrArg Connection.phase hs.symm
    refine .known (Phase.mem_publish.mpr (.inl hphases)) (hp ▸ le_refl _) fun _ => ?_
    rw [(proceed_of_link hlink c.index).1]
    exact hagreed

theorem Stage.strange_step
    (hc : (∃ r, c.session.connection.control = .stopping r) ∨
      ∃ r, c.session.connection.control = .finished r)
    (hq : c.session.connection.IsQuiet device) (hreader : c.session.connection.reader = .idle)
    (hu : c.IsUntouched x)
    (hstep : c.session.connection.stepControl x c.now c.index = some (i, s.connection)) :
    (c.proceed i s).Stage x device certificate? := by
  obtain ⟨r, hc⟩ | ⟨r, hc⟩ := hc <;> simp only [Connection.stepControl, hc] at hstep
  · obtain ⟨rfl, hs⟩ := Prod.mk.inj (Option.some.inj hstep)
    have hlink : s.connection.link = c.session.connection.link := by
      rw [← hs, Connection.link_finish]
    refine .strange (.inr ⟨r, congrArg Connection.control hs.symm⟩) (hs ▸ hq.finish r) ?_
      ⟨hu.index, ?_⟩
    · exact (congrArg Connection.reader hs.symm).trans hreader
    · rw [(proceed_of_link hlink c.index).2]
      exact hu.written
  · cases hstep

theorem Stage.known_step (hphases : .exchangingClusterConfig ∈ c.phases)
    (hrank : Phase.active.rank ≤ c.session.phase.rank)
    (hactive : c.session.phase = .active → HasAgreed device certificate? c.heard)
    (hlead : c.session.phase.Leads s.phase) (i : Index) :
    (c.proceed i s).Stage x device certificate? := by
  refine .known (Phase.mem_publish.mpr (.inl hphases)) (hrank.trans hlead.rank_le) ?_
  -- Here nothing leads to `active` but `active` itself.
  intro hp
  have hs : s.phase = .active := hp
  have hle := hlead.rank_le
  rw [hs] at hle
  have hsame : c.session.phase = .active := Phase.rank_injective (Nat.le_antisymm hle hrank)
  exact (hactive hsame).append _

theorem Stage.isQuiet_or_known (h : c.Stage x device certificate?) :
    c.session.connection.IsQuiet device ∨ .exchangingClusterConfig ∈ c.phases ∧
      Phase.active.rank ≤ c.session.phase.rank ∧
      (c.session.phase = .active → HasAgreed device certificate? c.heard) := by
  cases h with
  | dialing _ hq | greeting _ hq | building _ hq | clustering _ hq | agreeing _ hq | strange _ hq =>
    exact .inl hq
  | known hphases hrank hactive => exact .inr ⟨hphases, hrank, hactive⟩

theorem Sound.mem_phases (h : c.Sound x device certificate?)
    (hp : c.session.connection.control.phase = .exchangingClusterConfig) :
    .exchangingClusterConfig ∈ c.phases :=
  hp ▸ h.history.mem

theorem Sound.stage_control (h : c.Sound x device certificate?)
    (hlead : c.session.phase.Leads s.phase)
    (hstep : c.session.connection.stepControl x c.now c.index = some (i, s.connection)) :
    (c.proceed i s).Stage x device certificate? := by
  cases h.stage with
  | dialing hc hq hreader hcertificate hheard hwritten hindex =>
    exact .dialing_step hc hq hcertificate hheard hwritten hindex hstep
  | greeting hc hq hl hcertificate hreader hmine hindex =>
    exact .greeting_step hc hq hl hcertificate hreader hmine hindex hstep
  | building hc hq hreader hl hintro =>
    exact .building_step (h.mem_phases (congrArg Control.phase hc)) hc hq hl hintro hstep
  | clustering hc hq hl hintro hreader =>
    exact .clustering_step (h.mem_phases (congrArg Control.phase hc)) hc hq hl hintro hreader hstep
  | agreeing hc hq hreader hl hintro hopens =>
    have hagreed : HasAgreed device certificate? c.heard := ⟨_, _, _, _, hintro, hopens⟩
    exact .agreeing_step (h.mem_phases (congrArg Control.phase hc)) hc hagreed hstep
  | strange hc hq hreader hu => exact .strange_step hc hq hreader hu hstep
  | known hphases hrank hactive => exact .known_step hphases hrank hactive hlead i

theorem Stage.reader_step (h : c.Stage x device certificate?)
    (hlead : c.session.phase.Leads s.phase) (hidle : c.session.connection.reader ≠ .idle)
    (hread : c.session.connection.stepReader c.index = some (i, s.connection)) :
    (c.proceed i s).Stage x device certificate? := by
  cases h with
  | dialing _ _ hreader | building _ _ hreader | agreeing _ _ hreader | strange _ _ hreader =>
    exact absurd hreader hidle
  | greeting hc hq hl hcertificate hreader hmine hindex =>
    obtain ⟨rfl, hcontrol, hq', hheard, hwritten, inbound, hl', hreader'⟩ :=
      proceed_of_reader Reader.readsOne_hello hq hl hreader hread
    refine .greeting (hcontrol.trans hc) hq' hl' hcertificate ?_ (hwritten ▸ hmine) hindex
    rw [hheard]
    exact hreader'
  | clustering hc hq hl hintro hreader =>
    obtain ⟨rfl, hcontrol, hq', hheard, -, inbound, hl', hreader'⟩ :=
      proceed_of_reader Reader.readsOne_first hq hl hreader hread
    exact .clustering (hcontrol.trans hc) hq' hl' (hheard ▸ hintro) hreader'
  | known hphases hrank hactive => exact .known_step hphases hrank hactive hlead i

theorem Sound.stage_calledOff (h : c.Sound x device certificate?)
    (hlead : c.session.phase.Leads s.phase) {mine : Option Sending}
    (hmine : c.session.connection.control.handshake? = some mine)
    (hs : s.connection = c.session.connection.giveUp mine .cancelled) :
    (c.proceed c.index s).Stage x device certificate? := by
  cases h.stage with
  | dialing _ hq _ _ _ hwritten hindex => exact .call_off hs hq hindex (.inl hwritten)
  | greeting _ hq _ _ _ hmine hindex => exact .call_off hs hq hindex hmine.isPartOf
  | building hc | clustering hc | agreeing hc =>
    exact .closing (h.mem_phases (congrArg Control.phase hc)) (congrArg Connection.phase hs) c.index
  | strange hc => obtain ⟨r, hc⟩ | ⟨r, hc⟩ := hc <;> rw [hc] at hmine <;> cases hmine
  | known hphases hrank hactive => exact .known_step hphases hrank hactive hlead c.index

theorem Sound.stage_step (h : c.Sound x device certificate?) {a : Agent}
    (hstep : c.session.connection.step x c.now a c.index = some (i, s.connection)) :
    (c.proceed i s).Stage x device certificate? := by
  have hlead : c.session.phase.Leads s.phase := Connection.leads_step hstep
  obtain hq | ⟨hphases, hrank, hactive⟩ := h.stage.isQuiet_or_known
  · cases hq.step_cases hstep with
    | control hcontrol => exact h.stage_control hlead hcontrol
    | reader hidle hread => exact h.stage.reader_step hlead hidle hread
    | calledOff hi hmine hs => exact hi ▸ h.stage_calledOff hlead hmine hs
    | callers hi hs => exact hi ▸ h.stage.idle (Session.isIdle_of_callers hs)
  · exact .known_step hphases hrank hactive hlead i

theorem Sound.others (h : c.Sound x device certificate?) {index outside : Index}
    (hindex : c.index = c.outside → index = outside) (now : Nat) :
    ({ c with index, outside, now } : Course).Sound x device certificate? where
  history := h.history
  stage := by
    cases h.stage with
    | dialing hc hq hreader hcertificate hheard hwritten hi =>
      exact .dialing hc hq hreader hcertificate hheard hwritten (hindex hi)
    | greeting hc hq hl hcertificate hreader hmine hi =>
      exact .greeting hc hq hl hcertificate hreader hmine (hindex hi)
    | building hc hq hreader hl hintro => exact .building hc hq hreader hl hintro
    | clustering hc hq hl hintro hreader => exact .clustering hc hq hl hintro hreader
    | agreeing hc hq hreader hl hintro hopens => exact .agreeing hc hq hreader hl hintro hopens
    | strange hc hq hreader hu => exact .strange hc hq hreader ⟨hindex hu.index, hu.written⟩
    | known hphases hrank hactive => exact .known hphases hrank hactive
  introduced := h.introduced
  agreed := h.agreed

theorem Sound.idle {new : Bytes} (h : c.Sound x device certificate?)
    (hidle : c.session.IsIdle s new) : (c.proceed c.index s).Sound x device certificate? :=
  h.proceed (.inl (congrArg Control.phase hidle.control)) (h.stage.idle hidle)

theorem Sound.move (h : c.Sound x device certificate?) (m : Move) :
    (c.move x m).Sound x device certificate? := by
  cases m with
  | party p =>
    have hturn := c.takesTurn_move x p
    generalize c.move x (.party p) = c₁ at hturn ⊢
    cases hturn with
    | waiting => exact h
    | agent hagent => exact h.proceed (Connection.leads_step hagent) (h.stage_step hagent)
    | peer _ hpeer =>
      obtain ⟨new, hidle⟩ := hpeer.isIdle
      exact h.idle hidle
  | incident e => exact h.idle (Session.isIdle_undergo e c.session)
  | telling => exact h.idle (Session.isIdle_takeAnswers c.session)
  | peer p =>
    have hidle : c.session.IsIdle { c.session with peer := p } [] :=
      ⟨rfl, rfl, rfl, rfl, rfl, Link.serves_refl _⟩
    exact h.idle hidle
  | elsewhere i => exact h.others (fun _ => rfl) c.now
  | time now => exact h.others id now

theorem Sound.run (h : c.Sound x device certificate?) (moves : List Move) :
    (c.run x moves).Sound x device certificate? := by
  induction moves generalizing c with
  | nil => exact h
  | cons m rest ih => exact ih (h.move m)

theorem sound_starting (x : Surroundings) (device : DeviceId) (address : String)
    (found : Option (Stream × Peer)) (i : Index) (now : Nat) :
    (starting (.dialed device address found) i now).Sound x device
      (found.map (·.1.certificate)) where
  history := isHistory_starting (by rw [Session.phase_dialed]; decide) i now
  stage := by
    refine .dialing rfl ⟨rfl, rfl, rfl⟩ rfl ?_ rfl rfl rfl
    cases found <;> rfl
  introduced hmem := by cases List.mem_singleton.mp hmem
  agreed hmem := by cases List.mem_singleton.mp hmem

/-- Whatever happens to a connection, and whatever the peer says, the phases come in order and end
with `closing` and `closed`. A connection is active only behind the certificate of the device, a
hello that names device and program, and a cluster configuration. Until certificate and hello are
known to be right, nothing but our own hello is written, and the index is as others have left it. -/
theorem active_only_if_authenticated (x : Surroundings) (device : DeviceId) (address : String)
    (found : Option (Stream × Peer)) (i : Index) (now : Nat) (moves : List Move) :
    let c := (starting (.dialed device address found) i now).run x moves
    let certificate? := found.map (·.1.certificate)
    (c.phases.Pairwise (fun p q => p.rank < q.rank) ∧ c.phases.getLast? = some c.session.phase ∧
        (c.session.phase = .closed → [.closing, .closed] <:+ c.phases)) ∧
      (.active ∈ c.phases → ∃ hello left folders rest,
        IsIntroduced device certificate? c.heard hello left ∧
          Frame.messageFormat.Opens (.clusterConfig folders) left rest) ∧
      (.exchangingClusterConfig ∈ c.phases →
        ∃ hello left, IsIntroduced device certificate? c.heard hello left) ∧
      (.exchangingClusterConfig ∉ c.phases →
        c.index = c.outside ∧ c.written.IsPartOf x.helloFrame) := by
  intro c certificate?
  have h : c.Sound x device certificate? := (sound_starting x device address found i now).run moves
  refine ⟨⟨h.history.ascending, h.history.last, h.history.closed⟩, h.agreed, h.introduced, ?_⟩
  intro hphases
  exact ⟨(h.untouched hphases).index, (h.untouched hphases).written⟩

example :
    let x : Surroundings := {
      configuration := { device := .ofCertificate [3], name := "here", folders := [] }
      settings := {}
      serve _ r := { id := r.id } }
    let hello := Frame.encodeHello ⟨"there", "client", "1"⟩
    let first := Frame.encode (.clusterConfig [])
    let peer : Peer := { outgoing := hello.toOption.getD [] ++ first.toOption.getD [] }
    let control := List.replicate 6 (Move.party (.agent .control))
    let reader := List.replicate 4 (Move.party (.agent .reader))
    ((starting (.dialed (.ofCertificate [1, 2]) "there" (some ({ certificate := [1, 2] }, peer)))
      { store := .memory (.fresh 5) } 0).run x
        (.party .peerWriting :: control ++ reader ++ control ++ reader ++ control)).phases =
      [.connecting, .authenticating, .exchangingClusterConfig, .active] := by
  decide +kernel

end Course

end BlockExchange
