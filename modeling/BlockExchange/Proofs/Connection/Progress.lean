import BlockExchange.Proofs.Connection.Fold

namespace BlockExchange

def Reader.effort (unread : Nat) : Reader → Nat
  | serving _ r => r.effort unread
  | merging .. => 5 * unread + 1
  | _ => 0

namespace Connection

variable {c c' : Connection} {x : Surroundings} {now : Nat} {i i' : Index} {info : ClusterInfo}
  {device : DeviceId} {start : Index} {closed : Prop} {heard left : Bytes} {messages : List Message}
  {r : Except ExchangeError Unit}

theorem Serves.exists_stepReader (h : Serves info device start closed heard i c)
    (hclosed : c.ClosesWith closed) (hp : Passes info device start heard messages left)
    (he : EndsAt info device (messages.foldl (Index.serve info device) start) closed left r)
    (hne : c.reader ≠ .idle) : ∃ i' c', c.stepReader i = some (i', c') := by
  cases h with
  | @reading passed mid incoming hs hr hpassed hamid hi =>
    obtain ⟨p, hinbound, hseen, -⟩ := hclosed
    obtain ⟨stream, hstream, rfl⟩ := Option.map_eq_some_iff.mp hinbound
    have hadvance : incoming.advance Frame.messageFormat stream.inbound ≠ none := by
      intro hnone
      rw [unread, link_of_stream hstream] at hamid
      obtain ⟨hparse, hopen⟩ := hamid.waits hnone
      obtain ⟨rest, rfl, hrest⟩ := hp.exists_rest he hpassed
      cases hrest with
      | cons hm hv hrest => cases hparse.symm.trans (Frame.Format.opens_iff.mp hm)
      | nil =>
        cases he with
        | message hm hv => cases hparse.symm.trans (Frame.Format.opens_iff.mp hm)
        | garbage hgarbage => cases hparse.symm.trans hgarbage
        | breakOff _ hc => exact absurd (hseen hc) (by simp [hopen])
    obtain ⟨⟨result, inbound⟩, hadv⟩ := Option.ne_none_iff_exists'.mp hadvance
    have hread : c.read Frame.messageFormat incoming ≠ none := by
      simp [read, hstream, hadv]
    obtain ⟨⟨result', c'⟩, hread⟩ := Option.ne_none_iff_exists'.mp hread
    simp only [stepReader, hr, hread, Option.map_some]
    exact ⟨_, _, rfl⟩
  | merging hs hr hpassed hm hpart hbefore hi =>
    simp only [stepReader, hr]
    exact ⟨_, _, rfl⟩
  | finished hr hpassed he hi hc => exact absurd hr hne

theorem reader_take (info : ClusterInfo) (m : Message) (i : Index) (c : Connection) :
    (c.take info m i).2.reader = .idle ∨
      (c.take info m i).2.reader = .serving info (.start Frame.messageFormat) ∨
      ∃ folder r, (c.take info m i).2.reader = .merging info folder r := by
  cases m with
  | index p | indexUpdate p =>
    unfold take
    dsimp only
    split_ifs
    · exact .inr (.inr ⟨_, _, rfl⟩)
    · exact .inr (.inl rfl)
  | response | request | ping => exact .inr (.inl rfl)
  | _ => exact .inl rfl

theorem effort_start (unread : Nat) :
    (Incoming.start Frame.messageFormat).effort unread = 5 * unread := rfl

theorem Serves.effort_lt (h : Serves info device start closed heard i c) (hreads : Reads i c i' c')
    (hne : c.reader ≠ .idle) :
    c'.reader = .idle ∨ c'.reader.effort c'.unread.length < c.reader.effort c.unread.length := by
  cases h with
  | @reading messages left incoming hs hr hp hamid hi =>
    rw [hr]
    cases hreads with
    | handshake hc => rw [hr] at hc; cases hc
    | merged hr' => cases hr.symm.trans hr'
    | failure hr' hread => exact .inl rfl
    | going hr' hread =>
      cases hr.symm.trans hr'
      obtain ⟨stream, inbound, hstream, hadv, heq⟩ := read_eq_some hread
      have hbefore : c.unread = stream.inbound.bytes := by
        rw [unread, link_of_stream hstream]
        rfl
      rw [hbefore] at hamid ⊢
      have hlt := hamid.effort_lt (by decide) hadv
      rcases heq with rfl | rfl <;> exact .inr hlt
    | @message info _ m c₁ hr' hread =>
      cases hr.symm.trans hr'
      obtain ⟨stream, inbound, hstream, hadv, heq⟩ := read_eq_some hread
      obtain ⟨rfl, heffort⟩ := Incoming.effort_of_done hadv
      have hunread : (c₁.take info m i).2.unread.length = stream.inbound.bytes.length := by
        rw [unread_of_inbound? (inbound_take info m i c₁)]
        rcases heq with rfl | rfl <;> rfl
      have hbefore : c.unread = stream.inbound.bytes := by
        rw [unread, link_of_stream hstream]
        rfl
      rw [hunread, hbefore]
      obtain hidle | hstart | ⟨folder, r, hmerging⟩ := reader_take info m i c₁
      · exact .inl hidle
      · right
        rw [hstart, Reader.effort, Reader.effort, heffort, effort_start]
        omega
      · right
        rw [hmerging, Reader.effort, Reader.effort, heffort]
        omega
  | merging hs hr hp hm hpart hbefore hi =>
    obtain ⟨rfl, rfl⟩ := hreads.of_merging hr
    rw [unread_of_inbound? (inbound_merged ..), hr, Reader.effort]
    unfold Connection.merged
    split
    · exact .inr (Nat.lt_succ_self _)
    · exact .inr (Nat.lt_succ_self _)
    · exact .inl rfl
  | finished hr hp he hi hc => exact absurd hr hne

theorem exists_topic {rest : List (Except ExchangeError Unit)} (hended : c.ended = r :: rest) :
    ∃ t c₁, c.topic? = some (t, c₁) := by
  unfold topic?
  rw [hended]
  split
  · exact ⟨_, _, rfl⟩
  · exact ⟨_, _, rfl⟩
  · exact ⟨_, _, rfl⟩
  · split_ifs
    · exact ⟨_, _, rfl⟩
    · cases r <;> exact ⟨_, _, rfl⟩

end Connection

end BlockExchange
