import BlockExchange.Proofs.Connection.Serving
/-!
The peer's messages are taken in one after the other. Whoever moves, the index is what the messages
that have been read come to, until one of them ends the connection or none can be read any more; from
then on nothing gets into the index (`Connection.Serves`).
-/

namespace BlockExchange

structure Pipe.Gains (before after : Pipe) (new : Bytes) (hangsUp : Prop) : Prop where
  bytes : after.bytes = before.bytes ++ new
  nothing : before.closed = true → new = []
  closed : after.closed = true ↔ before.closed = true ∨ hangsUp

theorem Pipe.gains_refl (p : Pipe) : p.Gains p [] False :=
  ⟨(List.append_nil _).symm, fun _ => rfl, (or_false _).symm.to_iff⟩

def Deed.HangsUp : Deed → Prop
  | finish | leave => True
  | _ => False

namespace Peer

variable {peer peer' : Peer} {stream after : Stream}

theorem gains_stepReading (h : peer.stepReading stream = some (after, peer')) :
    stream.inbound.Gains after.inbound [] False := by
  unfold stepReading at h
  split at h
  · cases h
  split at h
  · split_ifs at h
    cases h
    exact stream.inbound.gains_refl
  · cases h
    exact stream.inbound.gains_refl

theorem gains_stepWriting (h : peer.stepWriting stream = some (after, peer')) :
    ∃ new, stream.inbound.Gains after.inbound new False := by
  unfold stepWriting at h
  split at h
  · cases h
  · split_ifs at h with hclosed <;> cases h
    · exact ⟨[], stream.inbound.gains_refl⟩
    · exact ⟨_, rfl, fun h => absurd h hclosed, (or_false _).symm.to_iff⟩

theorem gains_act (d : Deed) (peer : Peer) (stream : Stream) :
    stream.inbound.Gains (peer.act d stream).1.inbound [] d.HangsUp := by
  cases d with
  | finish | leave =>
    exact ⟨(List.append_nil _).symm, fun _ => rfl, iff_of_true rfl (.inr trivial)⟩
  | _ => exact stream.inbound.gains_refl

end Peer

namespace Connection

variable {c c' : Connection} {x : Surroundings} {now : Nat} {i i' : Index}

/-- The peer has ended the stream if and only if this is so. When the connection is over, the stream is
closed anyway. -/
def ClosesWith (closed : Prop) (c : Connection) : Prop :=
  ∃ p, c.inbound? = some p ∧ (closed → p.closed = true) ∧
    (c.control.result? = none → p.closed = true → closed)

def IsAbout (info : ClusterInfo) (r : Except ExchangeError Unit) (c : Connection) : Prop :=
  (c.control = .serving info ∧ c.IsUndisturbed ∧ ∃ rest, c.ended = r :: rest) ∨
    c.control.verdict? = some r

section

variable (info : ClusterInfo) (device : DeviceId) (start : Index) (closed : Prop) (heard : Bytes)

inductive Serves (i : Index) (c : Connection) : Prop
  | reading {messages : List Message} {left : Bytes} {r : Incoming} (hs : c.IsServing info device)
    (hr : c.reader = .serving info r) (hp : Passes info device start heard messages left)
    (hamid : r.IsAmid Frame.messageFormat left c.unread)
    (hi : i = messages.foldl (Index.serve info device) start)
  | merging {messages : List Message} {left : Bytes} {m : Message} {p : IndexPart} {before : Index}
    (hs : c.IsServing info device) (hr : c.reader = .merging info p.folder
      (before.merge p.folder device p.files).1)
    (hp : Passes info device start heard messages left)
    (hm : Frame.messageFormat.Opens m left c.unread) (hpart : info.part? m = some p)
    (hbefore : before = messages.foldl (Index.serve info device) start)
    (hi : i = (before.merge p.folder device p.files).2)
  | finished {messages : List Message} {left : Bytes} {r : Except ExchangeError Unit}
    (hr : c.reader = .idle) (hp : Passes info device start heard messages left)
    (he : EndsAt info device (messages.foldl (Index.serve info device) start) closed left r)
    (hi : i = messages.foldl (Index.serve info device) start) (hc : c.IsAbout info r)

end

variable {info : ClusterInfo} {device : DeviceId} {start : Index} {closed : Prop} {heard : Bytes}

theorem IsServing.abides (h : c.IsServing info device) (ha : c.Abides c') (hr : c.reader ≠ .idle)
    (hu : c'.IsUndisturbed) : c'.IsServing info device where
  peer := ha.device.trans h.peer
  control := ha.control.trans h.control
  stream := by
    have hinbound := congrArg Option.isSome ha.inbound
    rw [inbound?, inbound?, Option.isSome_map, Option.isSome_map] at hinbound
    exact hinbound.trans h.stream
  ended := (ha.ended.resolve_right fun hidle => hr hidle.1).trans h.ended
  undisturbed := hu

theorem Serves.abides (h : Serves info device start closed heard i c) (ha : c.Abides c')
    (hu : c.IsUndisturbed → c'.IsUndisturbed) : Serves info device start closed heard i c' := by
  have hunread := unread_of_inbound? ha.inbound
  cases h with
  | reading hs hr hp hamid hi =>
    have hs' := hs.abides ha (by simp [hr]) (hu hs.undisturbed)
    exact .reading hs' (ha.reader.trans hr) hp (hunread ▸ hamid) hi
  | merging hs hr hp hm hpart hbefore hi =>
    have hs' := hs.abides ha (by simp [hr]) (hu hs.undisturbed)
    exact .merging hs' (ha.reader.trans hr) hp (hunread ▸ hm) hpart hbefore hi
  | finished hr hp he hi hc =>
    refine .finished (ha.reader.trans hr) hp he hi ?_
    rcases hc with ⟨hserving, hundisturbed, rest, hended⟩ | hv
    · refine .inl ⟨ha.control.trans hserving, hu hundisturbed, ?_⟩
      obtain heq | ⟨-, new, heq⟩ := ha.ended
      · exact ⟨rest, heq.trans hended⟩
      · exact ⟨rest ++ new, by rw [← heq, hended]; rfl⟩
    · exact .inr (ha.control ▸ hv)

theorem Serves.append (h : Serves info device start closed heard i c) {stream : Option Stream}
    {new : Bytes} {closed' : Prop} (hsome : c.stream.isSome → stream.isSome)
    (hunread : { c with stream }.unread = c.unread ++ new) (hnew : closed → new = [])
    (hclosed : closed → closed') :
    Serves info device start closed' (heard ++ new) i { c with stream } := by
  have hserving : c.IsServing info device → { c with stream }.IsServing info device := fun hs =>
    ⟨hs.peer, hs.control, hsome hs.stream, hs.ended, hs.undisturbed.closing, hs.undisturbed.responses,
      hs.undisturbed.held, hs.undisturbed.timer⟩
  cases h with
  | reading hs hr hp hamid hi =>
    exact .reading (hserving hs) hr (hp.append new) (hunread ▸ hamid.append new) hi
  | merging hs hr hp hm hpart hbefore hi =>
    exact .merging (hserving hs) hr (hp.append new) (hunread ▸ hm.append new) hpart hbefore hi
  | finished hr hp he hi hc =>
    refine .finished hr (hp.append new) ((he.append hnew).mono hclosed) hi ?_
    refine hc.imp_left fun ⟨hserving, hundisturbed, hended⟩ => ⟨hserving, ?_, hended⟩
    exact ⟨hundisturbed.closing, hundisturbed.responses, hundisturbed.held, hundisturbed.timer⟩

theorem IsServing.reads (h : c.IsServing info device) {stream : Option Stream} {reports : List Report}
    (hstream : stream.isSome) (hreports : reports.filterMap Report.response? = []) (reader : Reader) :
    { c with stream, reader, reports }.IsServing info device :=
  ⟨h.peer, h.control, hstream, h.ended, h.undisturbed.closing, hreports, h.undisturbed.held,
    h.undisturbed.timer⟩

theorem IsServing.ends (h : c.IsServing info device) (stream : Option Stream)
    (r : Except ExchangeError Unit) :
    { c with stream, reader := .idle, ended := c.ended ++ [r] }.IsAbout info r := by
  have hu := h.undisturbed
  refine .inl ⟨h.control, ⟨hu.closing, hu.responses, hu.held, hu.timer⟩, [], ?_⟩
  rw [h.ended]
  rfl

theorem Serves.message {messages : List Message} {left : Bytes} {m : Message}
    {stream : Option Stream} (hs : c.IsServing info device)
    (hp : Passes info device start heard messages left) (hno : SaysNoResponse heard)
    (hstream : stream.isSome) (hm : Frame.messageFormat.Opens m left { c with stream }.unread)
    (hi : i = messages.foldl (Index.serve info device) start) :
    Serves info device start closed heard (take info m i { c with stream }).1
      (take info m i { c with stream }).2 := by
  have hresponses := hs.undisturbed.responses
  have hgo : ∀ {reports : List Report}, reports.filterMap Report.response? = [] →
      { c with
        stream, reader := .serving info (.start Frame.messageFormat), reports }.IsServing info device :=
    fun hreports => hs.reads hstream hreports _
  -- What ends the connection leaves the index as it is.
  have hends : ∀ {r stream'}, Verdict info device
      (messages.foldl (Index.serve info device) start) m r → Serves info device start closed heard i
        { c with stream := stream', reader := .idle, ended := c.ended ++ [r] } :=
    fun hv => .finished rfl hp (.message hm hv) hi (hs.ends _ _)
  have hpass : ∀ {c' : Connection}, c'.unread = { c with stream }.unread →
      c'.reader = .serving info (.start Frame.messageFormat) → info.part? m = none →
      (∀ r, ¬Verdict info device (messages.foldl (Index.serve info device) start) m r) →
      c'.IsServing info device → Serves info device start closed heard i c' := by
    intro c' hunread hr hpart hv hs'
    refine .reading hs' hr (hp.concat (hunread ▸ hm) hv) (Incoming.isAmid_start _ _) ?_
    rw [List.foldl_concat, Index.serve, hpart, ← hi]
    rfl
  have hindex : ∀ {p : IndexPart}, m.part? = some p →
      (∀ r, Verdict info device (messages.foldl (Index.serve info device) start) m r →
        info.part? m ≠ none) →
      take info m i { c with stream } = (if info.hasFolder p.folder then
        ((i.merge p.folder c.device p.files).2, { c with
          stream, reader := .merging info p.folder (i.merge p.folder c.device p.files).1 })
        else (i, { c with stream, reader := .serving info (.start Frame.messageFormat) })) →
      Serves info device start closed heard (take info m i { c with stream }).1
        (take info m i { c with stream }).2 := by
    intro p hpart hv htake
    rw [htake]
    split_ifs with hfolder
    · refine .merging (p := p) (hs.reads hstream hresponses _) ?_ hp hm ?_ hi ?_
      · rw [hs.peer]
      · rw [ClusterInfo.part?, hpart, Option.filter_some, if_pos hfolder]
      · rw [hs.peer]
    · have hnone : info.part? m = none := by
        rw [ClusterInfo.part?, hpart, Option.filter_some, if_neg hfolder]
      exact hpass rfl rfl hnone (fun r hr => hv r hr hnone) (hgo hresponses)
  cases m with
  | index p => exact hindex rfl (by rintro r ⟨⟩; simp [*]) rfl
  | indexUpdate p => exact hindex rfl (by rintro r ⟨⟩; simp [*]) rfl
  | response r => exact absurd List.mem_concat_self (hno _ _ (hp.opensAll.concat hm) r)
  | request r =>
    refine hpass rfl rfl rfl (by rintro r ⟨⟩; contradiction) (hgo ?_)
    rw [List.filterMap_append]
    exact List.append_eq_nil_iff.mpr ⟨hresponses, rfl⟩
  | ping => exact hpass rfl rfl rfl (by rintro r ⟨⟩; contradiction) (hgo hresponses)
  | close reason => exact hends (.close reason)
  | clusterConfig folders => exact hends (.clusterConfig folders)
  | downloadProgress p => exact hends (.downloadProgress p)

theorem Serves.merged {messages : List Message} {left : Bytes} {m : Message} {p : IndexPart}
    {before : Index} (hs : c.IsServing info device)
    (hp : Passes info device start heard messages left)
    (hm : Frame.messageFormat.Opens m left c.unread) (hpart : info.part? m = some p)
    (hbefore : before = messages.foldl (Index.serve info device) start)
    (hi : i = (before.merge p.folder device p.files).2) :
    Serves info device start closed heard
      (c.merged info p.folder (before.merge p.folder device p.files).1 i).1
      (c.merged info p.folder (before.merge p.folder device p.files).1 i).2 := by
  have hserve : before.serve info device m = (before.receiveMessage p.folder device p.files).2 := by
    rw [Index.serve, hpart]
    rfl
  have hpass : ∀ {i' : Index},
      (∀ e, (before.merge p.folder device p.files).1 = .error e → ∃ d f, e = .noMarker d f) →
      i' = (before.receiveMessage p.folder device p.files).2 → Serves info device start closed heard i'
        { c with reader := .serving info (.start Frame.messageFormat) } := by
    intro i' hmerge hi'
    refine .reading (hs.reads hs.stream hs.undisturbed.responses _) rfl (hp.concat hm ?_)
      (Incoming.isAmid_start _ _) ?_
    · rw [← hbefore]
      intro r hr
      obtain ⟨e, rfl, he, hne⟩ := hr.refused hpart
      rw [Index.receiveMessage_fst] at he
      obtain ⟨d, f, rfl⟩ := hmerge e he
      exact hne d f rfl
    · rw [List.foldl_concat, ← hbefore, hserve, hi']
  have herror : ∀ {e}, (before.merge p.folder device p.files).1 = .error e →
      (before.receiveMessage p.folder device p.files).1 = .error e := fun he =>
    (Index.receiveMessage_fst ..).trans he
  have hafter : ∀ {e}, (before.merge p.folder device p.files).1 = .error e →
      (before.merge p.folder device p.files).2 = before := by
    intro e he
    have hmessage := Index.receiveMessage_of_error (herror he)
    rw [Index.receiveMessage] at hmessage
    split at hmessage <;> rename_i heq
    · rw [heq] at he
      cases he
    · rw [heq]
      exact hmessage
  unfold Connection.merged
  split
  · rename_i r hr
    refine hpass (by simp [hr]) ?_
    rw [hi, hs.peer, Index.receiveMessage]
    split <;> rename_i heq <;> rw [heq] at hr ⊢ <;> cases hr
    rfl
  · rename_i d f hr
    refine hpass (by rintro e he; exact ⟨d, f, Except.error.inj (he.symm.trans hr)⟩) ?_
    rw [hi, hafter hr, Index.receiveMessage_of_error (herror hr)]
  · rename_i e hne hr
    refine .finished rfl hp (.message hm (.refusal hpart (hbefore ▸ herror hr) ?_)) ?_ (hs.ends _ _)
    · rintro d f rfl
      exact hne d f rfl
    · rw [← hbefore, hi, hafter hr]

theorem Serves.hasRead (h : Serves info device start closed heard i c) (hr : c.reader ≠ .idle) :
    ∃ messages, c.reader.HasRead heard messages c.unread := by
  cases h with
  | reading hs hr hp hamid hi => exact ⟨_, by rw [hr]; exact ⟨_, hp.opensAll, hamid⟩⟩
  | merging hs hr hp hm hpart hbefore hi => exact ⟨_, by rw [hr]; exact hp.opensAll.concat hm⟩
  | finished hidle hp he hi hc => exact absurd hidle hr

theorem Serves.reads (h : Serves info device start closed heard i c)
    (hclosed : c.ClosesWith closed) (hno : SaysNoResponse heard) (hreads : Reads i c i' c')
    (hne : c.reader ≠ .idle) : Serves info device start closed heard i' c' := by
  cases h with
  | @reading messages left r hs hr hp hamid hi =>
    have hlasting : c.control.result? = none := by rw [hs.control]; rfl
    cases hreads with
    | handshake hc => rw [hr] at hc; cases hc
    | merged hr' => cases hr.symm.trans hr'
    | going hr' hread =>
      cases hr.symm.trans hr'
      obtain ⟨stream, rfl, -, hgoes⟩ := read_unread hread
      exact .reading (hs.reads rfl hs.undisturbed.responses _) rfl hp ((hgoes hamid).1 _ rfl) hi
    | message hr' hread =>
      cases hr.symm.trans hr'
      obtain ⟨stream, rfl, -, hgoes⟩ := read_unread hread
      exact .message hs hp hno rfl ((hgoes hamid).2 _ rfl) hi
    | failure hr' hread =>
      cases hr.symm.trans hr'
      obtain ⟨stream, rfl, -⟩ := read_unread hread
      refine .finished rfl hp ?_ hi (hs.ends _ _)
      obtain ⟨cause, rfl, hparse⟩ | ⟨rfl, hparse, hhungUp⟩ := read_fails hread hamid
      · exact .garbage hparse
      · obtain ⟨p, hinbound, -, honly⟩ := hclosed
        obtain ⟨p', hinbound', hp'⟩ := hhungUp
        cases hinbound.symm.trans hinbound'
        exact .breakOff hparse (honly hlasting hp')
  | merging hs hr hp hm hpart hbefore hi =>
    obtain ⟨rfl, rfl⟩ := hreads.of_merging hr
    exact .merged hs hp hm hpart hbefore hi
  | finished hr hp he hi hc => exact absurd hr hne

theorem Serves.controls (h : Serves info device start closed heard i c)
    (hcontrols : Controls x now i c i' c') :
    Serves info device start closed heard i' c' ∧ (c.Abides c' ∨ ∃ r, c.Concludes r c') := by
  have hattention : c.control = .serving info → c.IsUndisturbed → i' = i ∧
      (c'.IsUndisturbed ∧ c.Abides c' ∨ ∃ r rest, c.ended = r :: rest ∧ c.Concludes r c') := by
    intro hc hu
    obtain ⟨hi, t, c₁, ht, ht'⟩ := hcontrols.of_serving hc
    refine ⟨hi, (hu.attention (by rw [hc]; rfl) ht ht').imp_left ?_⟩
    exact fun ⟨hu', ha, _⟩ => ⟨hu', ha⟩
  have hserving : c.IsServing info device →
      Serves info device start closed heard i' c' ∧ (c.Abides c' ∨ ∃ r, c.Concludes r c') := by
    intro hs
    obtain ⟨rfl, ⟨hu, ha⟩ | ⟨r, rest, hended, -⟩⟩ := hattention hs.control hs.undisturbed
    · exact ⟨h.abides ha fun _ => hu, .inl ha⟩
    · exact absurd hended (by simp [hs.ended])
  cases h with
  | reading hs hr hp hamid hi => exact hserving hs
  | merging hs hr hp hm hpart hbefore hi => exact hserving hs
  | @finished messages left r hr hp he hi hc =>
    have hends : i' = i → c.Concludes r c' → Serves info device start closed heard i' c' ∧
        (c.Abides c' ∨ ∃ r, c.Concludes r c') := by
      rintro rfl hconcludes
      have hidle : c'.reader = .idle := hconcludes.reader.elim (·.trans hr) id
      exact ⟨.finished hidle hp he hi (.inr hconcludes.verdict), .inr ⟨r, hconcludes⟩⟩
    have hover := Serves.finished hr hp he hi hc
    rcases hc with ⟨hc, hu, rest, hended⟩ | hv
    · obtain ⟨rfl, ⟨hu', ha⟩ | ⟨r', rest', hended', hconcludes⟩⟩ := hattention hc hu
      · exact ⟨hover.abides ha fun _ => hu', .inl ha⟩
      · cases hended.symm.trans hended'
        exact hends rfl hconcludes
    · obtain ⟨hi', hconcludes⟩ := hcontrols.concludes hv
      exact hends hi' hconcludes

theorem ClosesWith.abides (h : c.ClosesWith closed) (ha : c.Abides c') : c'.ClosesWith closed := by
  obtain ⟨p, hp, hclosed, hlasting⟩ := h
  exact ⟨p, ha.inbound.trans hp, hclosed, ha.control ▸ hlasting⟩

theorem ClosesWith.concludes (h : c.ClosesWith closed) {r : Except ExchangeError Unit}
    (hc : c.Concludes r c') : c'.ClosesWith closed := by
  obtain ⟨p, hp, hclosed, hlasting⟩ := h
  obtain hsame | ⟨hover, hclose⟩ := hc.inbound
  · exact ⟨p, hsame.trans hp, hclosed, fun _ => hlasting hc.before⟩
  · rw [hp] at hclose
    exact ⟨p.close, hclose, fun _ => rfl, fun hr => absurd hr (by simp [hover])⟩

theorem inbound_take (info : ClusterInfo) (m : Message) (i : Index) (c : Connection) :
    (c.take info m i).2.inbound? = c.inbound? := by
  cases m with
  | index p | indexUpdate p =>
    unfold take
    dsimp only
    split_ifs <;> rfl
  | close reason => exact c.inbound_disconnect
  | _ => rfl

theorem inbound_merged (info : ClusterInfo) (folder : String)
    (r : Except ExchangeError Index.Received) (i : Index) (c : Connection) :
    (c.merged info folder r i).2.inbound? = c.inbound? := by
  unfold Connection.merged
  split <;> rfl

theorem ClosesWith.reads (h : c.ClosesWith closed) (hcontrol : c'.control = c.control)
    (hreads : Reads i c i' c') (hr : c.reader.info?.isSome) : c'.ClosesWith closed := by
  obtain ⟨p, hp, hclosed, hlasting⟩ := h
  have hsame : ∃ p', c'.inbound? = some p' ∧ p'.closed = p.closed := by
    cases hreads with
    | handshake hc => simp [hc] at hr
    | going hr' hread | failure hr' hread =>
      have hinbound := inbound_read hread hp
      exact hinbound
    | message hr' hread =>
      rw [inbound_take]
      exact inbound_read hread hp
    | merged hr' => exact ⟨p, (inbound_merged ..).trans hp, rfl⟩
  obtain ⟨p', hp', hsame⟩ := hsame
  exact ⟨p', hp', hsame ▸ hclosed, hsame ▸ hcontrol ▸ hlasting⟩

theorem Serves.info?_isSome (h : Serves info device start closed heard i c) (hr : c.reader ≠ .idle) :
    c.reader.info?.isSome := by
  cases h with
  | reading hs hr' hp hamid hi => rw [hr']; rfl
  | merging hs hr' hp hm hpart hbefore hi => rw [hr']; rfl
  | finished hidle hp he hi hc => exact absurd hidle hr

theorem Serves.timer (h : Serves info device start closed heard i c) (hr : c.reader ≠ .idle) :
    c.keepAlive ≠ .refused := by
  cases h with
  | reading hs hr' hp hamid hi => exact hs.undisturbed.timer
  | merging hs hr' hp hm hpart hbefore hi => exact hs.undisturbed.timer
  | finished hidle hp he hi hc => exact absurd hidle hr

theorem Serves.gains (h : Serves info device start closed heard i c) (hclosed : c.ClosesWith closed)
    {stream after : Stream} {new : Bytes} {hangsUp : Prop} (hstream : c.stream = some stream)
    (hgains : stream.inbound.Gains after.inbound new hangsUp) :
    Serves info device start (closed ∨ hangsUp) (heard ++ new) i { c with stream := some after } ∧
      { c with stream := some after }.ClosesWith (closed ∨ hangsUp) := by
  obtain ⟨p, hp, hseen, honly⟩ := hclosed
  rw [inbound?, hstream, Option.map_some, Option.some.injEq] at hp
  subst hp
  constructor
  · refine h.append (fun _ => rfl) ?_ (fun hc => hgains.nothing (hseen hc)) .inl
    rw [unread_eq, unread_eq, inbound?, inbound?, hstream]
    exact hgains.bytes
  · refine ⟨after.inbound, rfl, ?_, fun hr hafter => ?_⟩
    · exact fun hc => hgains.closed.mpr (hc.imp_left hseen)
    · exact (hgains.closed.mp hafter).imp_left (honly hr)

end Connection

end BlockExchange
