import BlockExchange.Proofs.Connection.Transfer

namespace BlockExchange

variable {α : Type} {f : Frame.Format α} {bytes left : Bytes}

namespace Frame.Format

/-- The value of the frame that some bytes begin with and what is left behind it, or why there is no
such value; nothing as long as the frame is not complete. -/
def parse (f : Frame.Format α) (bytes : Bytes) : Option (Except CodecError (α × Bytes)) :=
  if bytes.length < f.headerLength then none
  else match f.payloadLength (bytes.take f.headerLength) with
    | .error e => some (.error e)
    | .ok n =>
      let rest := bytes.drop f.headerLength
      if rest.length < n then none else some ((f.decode (rest.take n)).map (·, rest.drop n))

theorem parse_of_short (h : bytes.length < f.headerLength) : f.parse bytes = none := if_pos h

variable {header payload : Bytes}

theorem parse_of_refused (hl : header.length = f.headerLength) {e : CodecError}
    (he : f.payloadLength header = .error e) (rest : Bytes) :
    f.parse (header ++ rest) = some (.error e) := by
  have hlong : ¬(header ++ rest).length < f.headerLength := by simp [hl]
  rw [parse, if_neg hlong, ← hl, List.take_left', he]
  rfl

theorem parse_of_cut (hl : header.length = f.headerLength) {n : Nat}
    (hn : f.payloadLength header = .ok n) {rest : Bytes} (hrest : rest.length < n) :
    f.parse (header ++ rest) = none := by
  have hlong : ¬(header ++ rest).length < f.headerLength := by simp [hl]
  rw [parse, if_neg hlong, ← hl, List.take_left', hn]
  dsimp only
  rw [List.drop_left', if_pos hrest]
  all_goals rfl

theorem parse_of_payload (hl : header.length = f.headerLength)
    (hn : f.payloadLength header = .ok payload.length) (rest : Bytes) :
    f.parse (header ++ (payload ++ rest)) = some ((f.decode payload).map (·, rest)) := by
  have hlong : ¬(header ++ (payload ++ rest)).length < f.headerLength := by simp [hl]
  have hwhole : ¬(payload ++ rest).length < payload.length := by simp
  rw [parse, if_neg hlong, ← hl, List.take_left', hn]
  dsimp only
  rw [List.drop_left', if_neg hwhole, List.take_left', List.drop_left']
  all_goals rfl

theorem parse_cases (f : Frame.Format α) (bytes : Bytes) :
    bytes.length < f.headerLength ∨ ∃ header rest, bytes = header ++ rest ∧
      header.length = f.headerLength ∧ ((∃ e, f.payloadLength header = .error e) ∨
        ∃ n, f.payloadLength header = .ok n ∧ (rest.length < n ∨
          ∃ payload left, rest = payload ++ left ∧ payload.length = n)) := by
  by_cases hlong : bytes.length < f.headerLength
  · exact .inl hlong
  · refine .inr ⟨bytes.take f.headerLength, bytes.drop f.headerLength,
      (List.take_append_drop _ _).symm, List.length_take_of_le (by omega), ?_⟩
    cases f.payloadLength (bytes.take f.headerLength) with
    | error e => exact .inl ⟨e, rfl⟩
    | ok n =>
      refine .inr ⟨n, rfl, ?_⟩
      by_cases hcut : (bytes.drop f.headerLength).length < n
      · exact .inl hcut
      · exact .inr ⟨_, _, (List.take_append_drop n _).symm, List.length_take_of_le (by omega)⟩

theorem opens_iff {a : α} : f.Opens a bytes left ↔ f.parse bytes = some (.ok (a, left)) := by
  constructor
  · rintro ⟨_, rfl, header, payload, rfl, hl, hn, ha⟩
    rw [List.append_assoc, parse_of_payload hl hn, ha]
    rfl
  · intro h
    obtain hshort | ⟨header, rest, rfl, hl, ⟨e, he⟩ | ⟨n, hn, hcut | ⟨payload, left', rfl, rfl⟩⟩⟩ :=
      f.parse_cases bytes
    · rw [parse_of_short hshort] at h
      cases h
    · rw [parse_of_refused hl he] at h
      cases h
    · rw [parse_of_cut hl hn hcut] at h
      cases h
    · rw [parse_of_payload hl hn] at h
      cases ha : f.decode payload with
      | error e => rw [ha] at h; cases h
      | ok b =>
        rw [ha] at h
        cases h
        exact ⟨header ++ payload, (List.append_assoc _ _ _).symm, header, payload, rfl, hl, hn, ha⟩

theorem parse_append_error {e : CodecError} (h : f.parse bytes = some (.error e)) (new : Bytes) :
    f.parse (bytes ++ new) = some (.error e) := by
  obtain hshort | ⟨header, rest, rfl, hl, ⟨e', he⟩ | ⟨n, hn, hcut | ⟨payload, left', rfl, rfl⟩⟩⟩ :=
    f.parse_cases bytes
  · rw [parse_of_short hshort] at h
    cases h
  · rw [parse_of_refused hl he] at h
    rw [List.append_assoc, parse_of_refused hl he]
    exact h
  · rw [parse_of_cut hl hn hcut] at h
    cases h
  · rw [parse_of_payload hl hn] at h
    rw [List.append_assoc, List.append_assoc, parse_of_payload hl hn]
    cases ha : f.decode payload with
    | error e' =>
      rw [ha] at h
      exact h
    | ok b => rw [ha] at h; cases h

end Frame.Format

namespace Incoming

variable {r r' : Incoming} {p p' : Pipe}

theorem IsAmid.parse_eq_none (h : r.IsAmid f bytes p.bytes) {i : Intake}
    (hr : r = .header i ∨ r = .payload i) (hmissing : i.missing ≠ 0)
    (htake : p.bytes.take i.missing = []) : f.parse bytes = none := by
  have hnil : p.bytes = [] := (List.take_eq_nil_iff.mp htake).resolve_left hmissing
  obtain ⟨taken, rfl, hholds⟩ := h
  rw [hnil, List.append_nil]
  rcases hr with rfl | rfl
  · obtain ⟨rfl, hlength⟩ := hholds
    exact Frame.Format.parse_of_short (by omega)
  · obtain ⟨header, rfl, hlength, hn⟩ := hholds
    exact Frame.Format.parse_of_cut hlength hn (by omega)

theorem IsAmid.waits (h : r.IsAmid f bytes p.bytes) (hstep : r.advance f p = none) :
    f.parse bytes = none ∧ p.closed = false := by
  have hawait : ∀ {i : Intake} {next : Intake → Incoming}, r = .header i ∨ r = .payload i →
      i.missing ≠ 0 → await (α := α) i p next = none → f.parse bytes = none ∧ p.closed = false := by
    intro i next hr hmissing hawait
    obtain ⟨htake, hclosed⟩ := Intake.take_eq_none (Option.map_eq_none_iff.mp hawait)
    exact ⟨h.parse_eq_none hr hmissing htake, hclosed⟩
  cases r with
  | header i =>
    rw [advance] at hstep
    split_ifs at hstep with hmissing
    · split at hstep <;> cases hstep
    · exact hawait (.inl rfl) hmissing hstep
  | payload i =>
    rw [advance] at hstep
    split_ifs at hstep with hmissing
    exact hawait (.inr rfl) hmissing hstep

theorem IsAmid.fails (h : r.IsAmid f bytes p.bytes) {e : ExchangeError}
    (hstep : r.advance f p = some (.done (.error e), p')) :
    (∃ cause, e = .codec cause ∧ f.parse bytes = some (.error cause)) ∨
      e = .closed ∧ f.parse bytes = none ∧ p.closed = true := by
  cases advances_of_advance hstep with
  | @refusal i cause hmissing hcause =>
    obtain ⟨taken, rfl, rfl, hlength⟩ := h
    exact .inl ⟨cause, rfl, Frame.Format.parse_of_refused (by omega) hcause _⟩
  | @garbage i cause hmissing hcause =>
    obtain ⟨taken, rfl, header, rfl, hlength, hn⟩ := h
    rw [hmissing, Nat.add_zero] at hn
    refine .inl ⟨cause, rfl, ?_⟩
    rw [List.append_assoc, Frame.Format.parse_of_payload hlength hn, hcause]
    rfl
  | breakOff hr hmissing htake =>
    obtain ⟨hnil, hclosed, rfl, -⟩ := Intake.take_eq_error htake
    exact .inr ⟨rfl, h.parse_eq_none hr hmissing hnil, hclosed⟩

theorem closed_of_advance {result : Progress Incoming (Except ExchangeError α)}
    (hstep : r.advance f p = some (result, p')) : p'.closed = p.closed := by
  cases advances_of_advance hstep with
  | announcement | refusal | value | garbage => rfl
  | header htake | payload htake =>
    obtain ⟨front, -, -, hclosed, -⟩ := Intake.take_eq_ok htake
    exact hclosed
  | breakOff hr hmissing htake =>
    obtain ⟨-, -, -, rfl⟩ := Intake.take_eq_error htake
    rfl

def effort (unread : Nat) : Incoming → Nat
  | header i => 5 * unread + 4 * i.bytes.length
  | payload _ => 5 * unread + 2

theorem length_of_take {i i' : Intake} (h : i.take p = some (.ok i', p')) :
    i.bytes.length < i'.bytes.length ∧
      i'.bytes.length + p'.bytes.length = i.bytes.length + p.bytes.length := by
  obtain ⟨front, hne, hbytes, -, htaken, -⟩ := Intake.take_eq_ok h
  have hlength := List.length_pos_iff.mpr hne
  rw [hbytes, htaken, List.length_append, List.length_append]
  omega

theorem IsAmid.effort_lt (h : r.IsAmid f bytes p.bytes) (hf : f.headerLength ≠ 0)
    (hstep : r.advance f p = some (.going r', p')) :
    r'.effort p'.bytes.length < r.effort p.bytes.length := by
  cases advances_of_advance hstep with
  | announcement hmissing hn =>
    obtain ⟨taken, -, -, hlength⟩ := h
    simp only [effort]
    omega
  | header htake | payload htake =>
    have hlength := length_of_take htake
    simp only [effort]
    omega

theorem effort_of_done {a : α} (hstep : r.advance f p = some (.done (.ok a), p')) :
    p' = p ∧ r.effort p.bytes.length = 5 * p.bytes.length + 2 := by
  cases advances_of_advance hstep with
  | value => exact ⟨rfl, rfl⟩

end Incoming

end BlockExchange
