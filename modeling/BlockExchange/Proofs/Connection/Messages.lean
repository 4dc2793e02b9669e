import BlockExchange.Proofs.Connection.Steps

namespace BlockExchange

variable {α : Type} {f : Frame.Format α} {bytes left : Bytes}

/-- Some bytes begin with frames for these values, one after the other, and these are left behind
them. -/
inductive Frame.Format.OpensAll (f : Frame.Format α) : List α → Bytes → Bytes → Prop
  | nil (bytes : Bytes) : OpensAll f [] bytes bytes
  | cons {a : α} {rest : List α} {bytes mid left : Bytes} (h : f.Opens a bytes mid)
    (hrest : OpensAll f rest mid left) : OpensAll f (a :: rest) bytes left

namespace Frame.Format.OpensAll

variable {values : List α}

theorem append (h : f.OpensAll values bytes left) (new : Bytes) :
    f.OpensAll values (bytes ++ new) (left ++ new) := by
  induction h with
  | nil bytes => exact .nil _
  | cons h hrest ih => exact .cons (h.append new) ih

theorem concat (h : f.OpensAll values bytes left) {a : α} {rest : Bytes} (ha : f.Opens a left rest) :
    f.OpensAll (values ++ [a]) bytes rest := by
  induction h with
  | nil bytes => exact .cons ha (.nil _)
  | cons h hrest ih => exact .cons h (ih ha)

end Frame.Format.OpensAll

def Message.response? : Message → Option BlockResponse
  | response r => some r
  | _ => none

def Report.response? : Report → Option BlockResponse
  | response r => some r
  | _ => none

namespace Reader

def HasRead (bytes : Bytes) (messages : List Message) (inbound : Bytes) : Reader → Prop
  | serving _ r => ∃ left, Frame.messageFormat.OpensAll messages bytes left ∧
      r.IsAmid Frame.messageFormat left inbound
  | merging .. => Frame.messageFormat.OpensAll messages bytes inbound
  | _ => False

variable {messages : List Message} {inbound : Bytes} {r : Reader}

theorem HasRead.append (h : r.HasRead bytes messages inbound) (new : Bytes) :
    r.HasRead (bytes ++ new) messages (inbound ++ new) := by
  cases r with
  | serving info r =>
    obtain ⟨left, hall, hamid⟩ := h
    exact ⟨left ++ new, hall.append new, hamid.append new⟩
  | merging info folder r => exact Frame.Format.OpensAll.append h new
  | _ => exact h.elim

theorem HasRead.opensAll (h : r.HasRead bytes messages inbound) :
    ∃ left, Frame.messageFormat.OpensAll messages bytes left := by
  cases r with
  | serving info r => exact ⟨_, h.choose_spec.1⟩
  | merging info folder r => exact ⟨_, h⟩
  | _ => exact h.elim

theorem hasRead_serving (info : ClusterInfo) (h : Frame.messageFormat.OpensAll messages bytes inbound) :
    (serving info (.start Frame.messageFormat)).HasRead bytes messages inbound :=
  ⟨inbound, h, Incoming.isAmid_start _ _⟩

end Reader

namespace Connection

variable {c c' : Connection} {i i' : Index}

def unread (c : Connection) : Bytes := c.link.elim [] (·.inbound)

theorem unread_eq (c : Connection) : c.unread = c.inbound?.elim [] (·.bytes) := by
  rw [unread, link, inbound?]
  cases c.stream <;> rfl

theorem unread_of_inbound? (h : c'.inbound? = c.inbound?) : c'.unread = c.unread := by
  rw [unread_eq, unread_eq, h]

def responses (c : Connection) : List BlockResponse := c.reports.filterMap Report.response?

theorem read_unread {r : Incoming} {p : Progress Incoming (Except ExchangeError α)}
    (h : c.read f r = some (p, c')) :
    ∃ stream, c' = { c with stream := some stream } ∧ c'.unread <:+ c.unread ∧
      ∀ {bytes}, r.IsAmid f bytes c.unread → (∀ r', p = .going r' → r'.IsAmid f bytes c'.unread) ∧
        ∀ a, p = .done (.ok a) → f.Opens a bytes c'.unread := by
  obtain ⟨stream, hstream, -⟩ := Option.bind_eq_some_iff.mp h
  have hl := link_of_stream hstream
  obtain ⟨after, inbound, hsuffix, hlink, rfl, hgoes⟩ := read_of_link hl h
  have hbefore : c.unread = stream.link.inbound := by
    rw [unread, hl]
    rfl
  have hafter : unread { c with stream := some after } = inbound := congrArg Link.inbound hlink
  rw [hbefore, hafter]
  exact ⟨after, rfl, hsuffix, hgoes⟩

theorem Reads.hasRead {messages : List Message} (h : Reads i c i' c')
    (hr : c.reader.HasRead bytes messages c.unread) : ∃ new, c'.unread <:+ c.unread ∧
      (c'.reader.HasRead bytes (messages ++ new) c'.unread ∨
        c'.reader = .idle ∧ ∃ left, Frame.messageFormat.OpensAll (messages ++ new) bytes left) ∧
      c'.responses = c.responses ++ new.filterMap Message.response? := by
  cases h with
  | handshake hc _ =>
    cases hreader : c.reader with rw [hreader] at hc hr
    | serving | merging => cases hc
    | _ => exact hr.elim
  | @going info r r' c₁ hreader hread =>
    rw [hreader] at hr
    obtain ⟨left, hall, hamid⟩ := hr
    obtain ⟨stream, rfl, hsuffix, hgoes⟩ := read_unread hread
    refine ⟨[], hsuffix, .inl ⟨left, ?_, (hgoes hamid).1 r' rfl⟩, (List.append_nil _).symm⟩
    rwa [List.append_nil]
  | failure hreader hread =>
    obtain ⟨left, hall⟩ := hr.opensAll
    obtain ⟨stream, rfl, hsuffix, -⟩ := read_unread hread
    refine ⟨[], hsuffix, .inr ⟨rfl, left, ?_⟩, (List.append_nil _).symm⟩
    rwa [List.append_nil]
  | @message info r m c₁ hreader hread =>
    rw [hreader] at hr
    obtain ⟨left, hall, hamid⟩ := hr
    obtain ⟨stream, rfl, hsuffix, hgoes⟩ := read_unread hread
    have hall' := hall.concat ((hgoes hamid).2 m rfl)
    refine ⟨[m], ?_⟩
    cases m with
    | index p | indexUpdate p =>
      unfold take
      dsimp only
      split_ifs
      · exact ⟨hsuffix, .inl hall', (List.append_nil _).symm⟩
      · exact ⟨hsuffix, .inl (Reader.hasRead_serving info hall'), (List.append_nil _).symm⟩
    | response r =>
      exact ⟨hsuffix, .inl (Reader.hasRead_serving info hall'), List.filterMap_append⟩
    | request r =>
      exact ⟨hsuffix, .inl (Reader.hasRead_serving info hall'), List.filterMap_append⟩
    | ping =>
      exact ⟨hsuffix, .inl (Reader.hasRead_serving info hall'), (List.append_nil _).symm⟩
    | close reason =>
      have hdisconnect := unread_of_inbound? (inbound_disconnect { c with stream := some stream })
      exact ⟨hdisconnect ▸ hsuffix, .inr ⟨rfl, _, hall'⟩, (List.append_nil _).symm⟩
    | clusterConfig folders | downloadProgress p =>
      exact ⟨hsuffix, .inr ⟨rfl, _, hall'⟩, (List.append_nil _).symm⟩
  | @merged info folder r hreader =>
    rw [hreader] at hr
    refine ⟨[], ?_⟩
    rw [List.append_nil]
    unfold Connection.merged
    split
    · exact ⟨List.suffix_rfl, .inl (Reader.hasRead_serving info hr), (List.append_nil _).symm⟩
    · exact ⟨List.suffix_rfl, .inl (Reader.hasRead_serving info hr), (List.append_nil _).symm⟩
    · exact ⟨List.suffix_rfl, .inr ⟨rfl, _, hr⟩, (List.append_nil _).symm⟩

end Connection

end BlockExchange
