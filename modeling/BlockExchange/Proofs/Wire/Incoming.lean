import BlockExchange.Connection.Incoming
import Mathlib.Tactic.SplitIfs

namespace BlockExchange

namespace Intake

variable {i : Intake}

theorem fill_all (bytes : Bytes) : (⟨bytes.length, []⟩ : Intake).fill bytes = ⟨0, bytes.reverse⟩ := by
  simp [fill]

theorem take_nil (i : Intake) : i.take ⟨[], true⟩ = some (.error .closed, ⟨[], true⟩) := by
  simp [take]

theorem take_append (hi : i.missing ≠ 0) {front : Bytes} (hf : front.length = i.missing)
    (rest : Bytes) (closed : Bool) :
    i.take ⟨front ++ rest, closed⟩ = some (.ok (i.fill front), ⟨rest, closed⟩) := by
  have hne : front ≠ [] := by
    rintro rfl
    exact hi hf.symm
  simp only [take, ← hf, List.take_left', List.drop_left']

theorem take_cut {bytes : Bytes} (hne : bytes ≠ []) (hb : bytes.length < i.missing) (closed : Bool) :
    i.take ⟨bytes, closed⟩ = some (.ok (i.fill bytes), ⟨[], closed⟩) := by
  simp only [take, List.take_of_length_le (Nat.le_of_lt hb), List.drop_of_length_le (Nat.le_of_lt hb)]

end Intake

def Frame.Format.IsFrameOf {α : Type} (f : Frame.Format α) (a : α) (frame : Bytes) : Prop :=
  ∃ header payload, frame = header ++ payload ∧ header.length = f.headerLength ∧
    f.payloadLength header = .ok payload.length ∧ f.decode payload = .ok a

namespace Incoming

variable {α : Type} {f : Frame.Format α} {i : Intake}

def IsStage (f : Frame.Format α) (stage : Intake → Incoming) : Prop :=
  ∀ i p, i.missing ≠ 0 → (stage i).advance f p = await i p stage

theorem isStage_header (f : Frame.Format α) : IsStage f header := fun _ _ hi => if_neg hi

theorem isStage_payload (f : Frame.Format α) : IsStage f payload := fun _ _ hi => if_neg hi

section

variable {stage : Intake → Incoming} (hs : IsStage f stage)

include hs

theorem run_stage (hi : i.missing ≠ 0) {front : Bytes} (hf : front.length = i.missing) (rest : Bytes)
    (closed : Bool) (steps : Nat) :
    run f (steps + 1) ⟨front ++ rest, closed⟩ (stage i) =
      run f steps ⟨rest, closed⟩ (stage (i.fill front)) := by
  have hstep := hs i ⟨front ++ rest, closed⟩ hi
  rw [await, Intake.take_append hi hf] at hstep
  rw [run, hstep]
  rfl

theorem run_stage_nil (hi : i.missing ≠ 0) (steps : Nat) :
    run f (steps + 1) ⟨[], true⟩ (stage i) = (.done (.error .closed), ⟨[], true⟩) := by
  have hstep := hs i ⟨[], true⟩ hi
  rw [await, Intake.take_nil] at hstep
  rw [run, hstep]
  rfl

theorem run_stage_cut {bytes : Bytes} (hb : bytes.length < i.missing) (steps : Nat) :
    run f (steps + 2) ⟨bytes, true⟩ (stage i) = (.done (.error .closed), ⟨[], true⟩) := by
  have hi : i.missing ≠ 0 := Nat.ne_zero_of_lt hb
  cases bytes with
  | nil => exact run_stage_nil hs hi _
  | cons b bytes =>
    have hstep := hs i ⟨b :: bytes, true⟩ hi
    rw [await, Intake.take_cut (List.cons_ne_nil _ _) hb] at hstep
    have hrest : (i.fill (b :: bytes)).missing ≠ 0 := Nat.sub_ne_zero_of_lt hb
    rw [run, hstep]
    exact run_stage_nil hs hrest steps

end

variable {header payload : Bytes}

theorem read_header (hf : f.headerLength ≠ 0) (hl : header.length = f.headerLength) (rest : Bytes)
    (closed : Bool) :
    read f ⟨header ++ rest, closed⟩ (start f) =
      run f 3 ⟨rest, closed⟩ (.header ⟨0, header.reverse⟩) := by
  rw [read, start, run_stage (isStage_header f) hf hl, ← hl, Intake.fill_all]

theorem read_announced (hf : f.headerLength ≠ 0) (hl : header.length = f.headerLength) {n : Nat}
    (hn : f.payloadLength header = .ok n) (rest : Bytes) (closed : Bool) :
    read f ⟨header ++ rest, closed⟩ (start f) = run f 2 ⟨rest, closed⟩ (.payload ⟨n, []⟩) := by
  rw [read_header hf hl]
  simp only [run, advance, if_true, Intake.bytes, List.reverse_reverse, hn]

theorem read_refused (hf : f.headerLength ≠ 0) (hl : header.length = f.headerLength) {e : CodecError}
    (he : f.payloadLength header = .error e) (rest : Bytes) (closed : Bool) :
    read f ⟨header ++ rest, closed⟩ (start f) = (.done (.error (.codec e)), ⟨rest, closed⟩) := by
  rw [read_header hf hl]
  simp only [run, advance, if_true, Intake.bytes, List.reverse_reverse, he]

theorem read_payload {a : α} (ha : f.decode payload = .ok a) (rest : Bytes) (closed : Bool) :
    run f 2 ⟨payload ++ rest, closed⟩ (.payload ⟨payload.length, []⟩) =
      (.done (.ok a), ⟨rest, closed⟩) := by
  have hdone : ∀ steps, run f (steps + 1) ⟨rest, closed⟩ (.payload ⟨0, payload.reverse⟩) =
      (.done (.ok a), ⟨rest, closed⟩) := by
    intro steps
    simp only [run, advance, if_true, Intake.bytes, List.reverse_reverse, ha]
    rfl
  by_cases hp : payload = []
  · subst hp
    exact hdone 1
  · have hne : payload.length ≠ 0 := by simpa using hp
    rw [run_stage (isStage_payload f) hne rfl, Intake.fill_all]
    exact hdone 0

theorem read_frame (hf : f.headerLength ≠ 0) {a : α} {frame : Bytes} (h : f.IsFrameOf a frame)
    (rest : Bytes) (closed : Bool) :
    read f ⟨frame ++ rest, closed⟩ (start f) = (.done (.ok a), ⟨rest, closed⟩) := by
  obtain ⟨header, payload, rfl, hl, hn, ha⟩ := h
  rw [List.append_assoc, read_announced hf hl hn, read_payload ha]

theorem read_cut (hf : f.headerLength ≠ 0) {a : α} {frame : Bytes} (h : f.IsFrameOf a frame) {n : Nat}
    (hn : n < frame.length) :
    read f ⟨frame.take n, true⟩ (start f) = (.done (.error .closed), ⟨[], true⟩) := by
  obtain ⟨header, payload, rfl, hl, hlen, -⟩ := h
  -- A frame is cut in its header or in its payload.
  by_cases hh : n < f.headerLength
  · apply run_stage_cut (isStage_header f) _ 2
    exact Nat.lt_of_le_of_lt (List.length_take_le n _) hh
  · rw [List.take_append, List.take_of_length_le (by omega), read_announced hf hl hlen]
    apply run_stage_cut (isStage_payload f) _ 0
    rw [List.length_append] at hn
    simp only [List.length_take]
    omega

theorem read_nil (hf : f.headerLength ≠ 0) :
    read f ⟨[], true⟩ (start f) = (.done (.error .closed), ⟨[], true⟩) :=
  run_stage_nil (isStage_header f) hf 3

end Incoming

end BlockExchange
