import BlockExchange.Proofs.Connection.Agents
import BlockExchange.Proofs.Wire.Incoming

namespace BlockExchange

variable {α : Type} {f : Frame.Format α} {bytes left : Bytes}

def Frame.Format.Opens (f : Frame.Format α) (a : α) (bytes left : Bytes) : Prop :=
  ∃ frame, bytes = frame ++ left ∧ f.IsFrameOf a frame

theorem Frame.Format.Opens.append {a : α} (h : f.Opens a bytes left) (new : Bytes) :
    f.Opens a (bytes ++ new) (left ++ new) := by
  obtain ⟨frame, rfl, hframe⟩ := h
  exact ⟨frame, List.append_assoc _ _ _, hframe⟩

namespace Intake

variable {i i' : Intake} {p p' : Pipe}

theorem take_eq_ok (h : i.take p = some (.ok i', p')) :
    ∃ front, front ≠ [] ∧ p.bytes = front ++ p'.bytes ∧ p'.closed = p.closed ∧
      i'.bytes = i.bytes ++ front ∧ front.length + i'.missing = i.missing := by
  unfold take at h
  split at h
  · split_ifs at h
    cases h
  · rename_i hne
    cases h
    refine ⟨p.bytes.take i.missing, hne, (List.take_append_drop _ _).symm, rfl, ?_, ?_⟩
    · simp [fill, bytes]
    · have hlength := List.length_take_le i.missing p.bytes
      simp only [fill]
      omega

theorem take_eq_error {e : ExchangeError} (h : i.take p = some (.error e, p')) :
    p.bytes.take i.missing = [] ∧ p.closed = true ∧ e = .closed ∧ p' = p := by
  unfold take at h
  split at h
  · rename_i hnil
    split_ifs at h with hclosed
    cases h
    exact ⟨hnil, hclosed, rfl, rfl⟩
  · cases h

theorem take_eq_none (h : i.take p = none) : p.bytes.take i.missing = [] ∧ p.closed = false := by
  unfold take at h
  split at h
  · rename_i hnil
    split_ifs at h with hclosed
    exact ⟨hnil, by simpa using hclosed⟩
  · cases h

end Intake

namespace Incoming

variable {r r' : Incoming} {p p' : Pipe}

def Holds (f : Frame.Format α) (taken : Bytes) : Incoming → Prop
  | header i => taken = i.bytes ∧ i.bytes.length + i.missing = f.headerLength
  | payload i => ∃ header, taken = header ++ i.bytes ∧ header.length = f.headerLength ∧
      f.payloadLength header = .ok (i.bytes.length + i.missing)

def IsAmid (f : Frame.Format α) (bytes left : Bytes) (r : Incoming) : Prop :=
  ∃ taken, bytes = taken ++ left ∧ r.Holds f taken

theorem isAmid_start (f : Frame.Format α) (bytes : Bytes) : (start f).IsAmid f bytes bytes :=
  ⟨[], rfl, rfl, Nat.zero_add _⟩

theorem IsAmid.append (h : r.IsAmid f bytes left) (new : Bytes) :
    r.IsAmid f (bytes ++ new) (left ++ new) := by
  obtain ⟨taken, rfl, hholds⟩ := h
  exact ⟨taken, List.append_assoc _ _ _, hholds⟩

inductive Advances (f : Frame.Format α) (p : Pipe) :
    Incoming → Progress Incoming (Except ExchangeError α) → Pipe → Prop
  | announcement {i : Intake} {n : Nat} (hmissing : i.missing = 0)
    (hn : f.payloadLength i.bytes = .ok n) :
    Advances f p (.header i) (.going (.payload ⟨n, []⟩)) p
  | refusal {i : Intake} {cause : CodecError} (hmissing : i.missing = 0)
    (hcause : f.payloadLength i.bytes = .error cause) :
    Advances f p (.header i) (.done (.error (.codec cause))) p
  | value {i : Intake} {a : α} (hmissing : i.missing = 0) (ha : f.decode i.bytes = .ok a) :
    Advances f p (.payload i) (.done (.ok a)) p
  | garbage {i : Intake} {cause : CodecError} (hmissing : i.missing = 0)
    (hcause : f.decode i.bytes = .error cause) :
    Advances f p (.payload i) (.done (.error (.codec cause))) p
  | header {i i' : Intake} {p' : Pipe} (htake : i.take p = some (.ok i', p')) :
    Advances f p (.header i) (.going (.header i')) p'
  | payload {i i' : Intake} {p' : Pipe} (htake : i.take p = some (.ok i', p')) :
    Advances f p (.payload i) (.going (.payload i')) p'
  | breakOff {r : Incoming} {i : Intake} {e : ExchangeError} {p' : Pipe}
    (hr : r = .header i ∨ r = .payload i) (hmissing : i.missing ≠ 0)
    (htake : i.take p = some (.error e, p')) : Advances f p r (.done (.error e)) p'

theorem advances_of_advance {result : Progress Incoming (Except ExchangeError α)}
    (h : r.advance f p = some (result, p')) : Advances f p r result p' := by
  cases r with
  | header i =>
    rw [advance] at h
    split_ifs at h with hmissing
    · split at h
      · rename_i n hn
        cases h
        exact .announcement hmissing hn
      · rename_i cause hcause
        cases h
        exact .refusal hmissing hcause
    · obtain ⟨⟨e | i', p''⟩, htake, heq⟩ := Option.map_eq_some_iff.mp h
      · cases heq
        exact .breakOff (.inl rfl) hmissing htake
      · cases heq
        exact .header htake
  | payload i =>
    rw [advance] at h
    split_ifs at h with hmissing
    · cases hdecode : f.decode i.bytes with
      | error cause =>
        rw [hdecode] at h
        cases h
        exact .garbage hmissing hdecode
      | ok a =>
        rw [hdecode] at h
        cases h
        exact .value hmissing hdecode
    · obtain ⟨⟨e | i', p''⟩, htake, heq⟩ := Option.map_eq_some_iff.mp h
      · cases heq
        exact .breakOff (.inr rfl) hmissing htake
      · cases heq
        exact .payload htake

theorem IsAmid.going (h : r.IsAmid f bytes p.bytes) (hstep : r.advance f p = some (.going r', p')) :
    r'.IsAmid f bytes p'.bytes := by
  obtain ⟨taken, rfl, hholds⟩ := h
  cases advances_of_advance hstep with
  | @announcement i n hmissing hn =>
    -- The header is complete, and nothing of the payload is there yet.
    obtain ⟨rfl, hlength⟩ := hholds
    refine ⟨i.bytes, rfl, i.bytes, (List.append_nil _).symm, by omega, ?_⟩
    rw [hn, Intake.bytes, List.reverse_nil, List.length_nil, Nat.zero_add]
  | @header i i' p' htake =>
    obtain ⟨rfl, hlength⟩ := hholds
    obtain ⟨front, -, hbytes, -, htaken, hmiss⟩ := Intake.take_eq_ok htake
    refine ⟨i'.bytes, by rw [hbytes, htaken, List.append_assoc], rfl, ?_⟩
    rw [htaken, List.length_append]
    omega
  | @payload i i' p' htake =>
    obtain ⟨header, rfl, hlength, hn⟩ := hholds
    obtain ⟨front, -, hbytes, -, htaken, hmiss⟩ := Intake.take_eq_ok htake
    refine ⟨header ++ i'.bytes, by simp [hbytes, htaken], header, rfl, hlength, ?_⟩
    rw [hn, htaken, List.length_append]
    congr 1
    omega

theorem IsAmid.opens {a : α} (h : r.IsAmid f bytes p.bytes)
    (hstep : r.advance f p = some (.done (.ok a), p')) : f.Opens a bytes p'.bytes := by
  obtain ⟨taken, rfl, hholds⟩ := h
  cases advances_of_advance hstep with
  | @value i a hmissing ha =>
    obtain ⟨header, rfl, hlength, hn⟩ := hholds
    refine ⟨header ++ i.bytes, rfl, header, i.bytes, rfl, hlength, ?_, ha⟩
    rw [hn, hmissing, Nat.add_zero]

theorem suffix_of_advance {result : Progress Incoming (Except ExchangeError α)}
    (hstep : r.advance f p = some (result, p')) : p'.bytes <:+ p.bytes := by
  cases advances_of_advance hstep with
  | announcement | refusal | value | garbage => exact List.suffix_rfl
  | header htake | payload htake =>
    obtain ⟨front, -, hbytes, -⟩ := Intake.take_eq_ok htake
    exact ⟨front, hbytes.symm⟩
  | breakOff hr hmissing htake =>
    obtain ⟨-, -, -, rfl⟩ := Intake.take_eq_error htake
    exact List.suffix_rfl

end Incoming

def Bytes.IsPartOf (written : Bytes) (frame : Except CodecError Bytes) : Prop :=
  written = [] ∨ ∃ whole, frame = .ok whole ∧ written <+: whole

namespace Sending

variable {frame : Except CodecError Bytes} {written : Bytes} {s : Sending}

def IsAmid (frame : Except CodecError Bytes) (written : Bytes) : Sending → Prop
  | refused _ => written = []
  | asking whole | waiting whole => written = [] ∧ frame = .ok whole
  | writing rest => frame = .ok (written ++ rest)

theorem isAmid_ofFrame (frame : Except CodecError Bytes) : (ofFrame frame).IsAmid frame [] := by
  cases frame with
  | error e => rfl
  | ok whole => exact ⟨rfl, rfl⟩

theorem IsAmid.isPartOf (h : s.IsAmid frame written) : written.IsPartOf frame := by
  cases s with
  | refused e => exact .inl h
  | asking whole => exact .inl h.1
  | waiting whole => exact .inl h.1
  | writing rest => exact .inr ⟨_, h, List.prefix_append _ _⟩

theorem advance_eq_some {a : Agent} {stream after : Stream}
    {p : Progress Sending (Except ExchangeError Unit)}
    (hstep : s.advance a stream = some (p, after)) :
    ∃ new, after.link = { stream.link with outbound := stream.link.outbound ++ new } ∧
      ∀ {frame written}, s.IsAmid frame written → (written ++ new).IsPartOf frame ∧
        ∀ s', p = .going s' → s'.IsAmid frame (written ++ new) := by
  have hnothing : ∀ {frame : Except CodecError Bytes} {written : Bytes}, s.IsAmid frame written →
      (written ++ []).IsPartOf frame := by
    intro frame written h
    rw [List.append_nil]
    exact h.isPartOf
  have hlink : stream.link = { stream.link with outbound := stream.link.outbound ++ [] } := by
    rw [List.append_nil]
  cases s with
  | refused e =>
    cases hstep
    exact ⟨[], hlink, fun h => ⟨hnothing h, nofun⟩⟩
  | asking whole =>
    cases hstep
    refine ⟨[], hlink, fun h => ⟨hnothing h, ?_⟩⟩
    rintro _ ⟨⟩
    rw [List.append_nil]
    exact h
  | waiting whole =>
    rw [Sending.advance] at hstep
    split_ifs at hstep <;> cases hstep
    · refine ⟨[], hlink, fun h => ⟨hnothing h, ?_⟩⟩
      rintro _ ⟨⟩
      rw [List.append_nil, h.1]
      exact h.2
    · exact ⟨[], hlink, fun h => ⟨hnothing h, nofun⟩⟩
  | writing rest =>
    cases rest with
    | nil =>
      cases hstep
      exact ⟨[], hlink, fun h => ⟨hnothing h, nofun⟩⟩
    | cons b rest =>
      unfold Sending.advance at hstep
      dsimp only at hstep
      split_ifs at hstep <;> cases hstep
      · exact ⟨[], hlink, fun h => ⟨hnothing h, nofun⟩⟩
      · refine ⟨(b :: rest).take stream.outbound.room, rfl, fun h => ?_⟩
        have hcut := List.take_append_drop stream.outbound.room (b :: rest)
        constructor
        · refine .inr ⟨_, h, (b :: rest).drop stream.outbound.room, ?_⟩
          rw [List.append_assoc, hcut]
        · rintro _ ⟨⟩
          rw [IsAmid, Pipe.excess, List.append_assoc, hcut]
          exact h

end Sending

namespace Connection

variable {c c' : Connection} {l : Link}

theorem exists_stream (hl : c.link = some l) : ∃ stream, c.stream = some stream ∧ stream.link = l :=
  Option.map_eq_some_iff.mp hl

theorem read_of_link (hl : c.link = some l) {r : Incoming}
    {p : Progress Incoming (Except ExchangeError α)} (h : c.read f r = some (p, c')) :
    ∃ stream inbound, inbound <:+ l.inbound ∧ stream.link = { l with inbound } ∧
      c' = { c with stream := some stream } ∧
      ∀ {bytes}, r.IsAmid f bytes l.inbound →
        (∀ r', p = .going r' → r'.IsAmid f bytes inbound) ∧
        ∀ a, p = .done (.ok a) → f.Opens a bytes inbound := by
  obtain ⟨stream, hstream, rfl⟩ := exists_stream hl
  obtain ⟨stream', inbound, hs, hadv, hc⟩ := read_eq_some h
  obtain rfl : stream = stream' := Option.some.inj (hstream.symm.trans hs)
  have hamid : ∀ {bytes}, r.IsAmid f bytes stream.inbound.bytes →
      (∀ r', p = .going r' → r'.IsAmid f bytes inbound.bytes) ∧
      ∀ a, p = .done (.ok a) → f.Opens a bytes inbound.bytes := by
    intro bytes hr
    constructor
    · rintro r' rfl
      exact hr.going hadv
    · rintro a rfl
      exact hr.opens hadv
  have hsuffix := Incoming.suffix_of_advance hadv
  rcases hc with rfl | rfl
  · exact ⟨{ stream with inbound }, inbound.bytes, hsuffix, rfl, rfl, hamid⟩
  · exact ⟨{ stream with inbound, connected := false }, inbound.bytes, hsuffix, rfl, rfl, hamid⟩

theorem write_of_link (hl : c.link = some l) {a : Agent} {s : Sending}
    {p : Progress Sending (Except ExchangeError Unit)} (h : c.write a s = some (p, c')) :
    ∃ stream new, stream.link = { l with outbound := l.outbound ++ new } ∧
      c' = { c with stream := some stream } ∧
      ∀ {frame written}, s.IsAmid frame written → (written ++ new).IsPartOf frame ∧
        ∀ s', p = .going s' → s'.IsAmid frame (written ++ new) := by
  obtain ⟨stream, hstream, rfl⟩ := exists_stream hl
  obtain ⟨stream', after, hs, hadv, rfl⟩ := write_eq_some h
  obtain rfl : stream = stream' := Option.some.inj (hstream.symm.trans hs)
  obtain ⟨new, hlink, hamid⟩ := Sending.advance_eq_some hadv
  exact ⟨after, new, hlink, rfl, hamid⟩

end Connection

end BlockExchange
