import BlockExchange.Proofs.Hex
import BlockExchange.Proofs.Wire.Incoming
import BlockExchange.Proofs.Wire.Payload
import Mathlib.Data.List.Forall2

namespace BlockExchange

open Incoming

theorem Bytes.length_le_ofText (chars : List Char) :
    chars.length ≤ (ofText (String.ofList chars)).length := by
  rw [ofText_ofList]
  exact Cbor.length_le_flatMap (fun c => by simp [c.utf8Size_pos]) chars

theorem Wire.length_deviceName_lt (h : Hello) :
    (Bytes.ofText h.deviceName).length < (hello.toCbor h).length := by
  have hname := Cbor.length_lt_writeText h.deviceName
  simp only [hello, Shape.iso, Fields.required, Shape.toCbor, Fields.toCbor, List.length_append]
  omega

theorem Wire.length_reason_lt (reason : String) :
    (Bytes.ofText reason).length < (message.toCbor (.close reason)).length := by
  have hreason := Cbor.length_lt_writeText reason
  simp only [message, closeReason, Shape.iso, Fields.required, Shape.toCbor, Cases.toCbor, Fields.toCbor,
    List.length_append]
  omega

namespace Frame

def whole : (n : Nat) → (frames : List Bytes) → Nat
  | _, [] => 0
  | n, frame :: rest => if frame.length ≤ n then whole (n - frame.length) rest + 1 else 0

theorem le_whole_iff {frames : List Bytes} {k : Nat} (hk : k ≤ frames.length) (n : Nat) :
    k ≤ whole n frames ↔ (frames.take k).flatten.length ≤ n := by
  induction frames generalizing k n with
  | nil =>
    obtain rfl : k = 0 := Nat.le_zero.mp hk
    simp
  | cons frame rest ih =>
    cases k with
    | zero => simp
    | succ k =>
      have hrest := ih (Nat.le_of_succ_le_succ hk) (n - frame.length)
      simp only [whole, List.take_succ_cons, List.flatten_cons, List.length_append]
      split_ifs with hle
      · omega
      · omega

theorem exists_encodeHello {h : Hello} (hh : (Wire.hello.toCbor h).length ≤ maxHelloLength) :
    ∃ frame, encodeHello h = .ok frame ∧ helloFormat.IsFrameOf h frame := by
  have hlen : (Wire.hello.toCbor h).length < 256 ^ 2 := Nat.lt_succ_of_le hh
  refine ⟨_, if_neg (Nat.not_lt.mpr hh), _, _, (List.append_assoc _ _ _).symm, ?_, ?_, ?_⟩
  · simp only [List.length_append, Bytes.length_bigEndian]
    rfl
  · have hmagic : helloMagic < 256 ^ 4 := by decide
    have hwidth := Bytes.length_bigEndian 4 helloMagic
    simp only [helloFormat, helloPayloadLength, List.take_left' hwidth, List.drop_left' hwidth,
      Bytes.toNat_bigEndian_of_lt hmagic, Bytes.toNat_bigEndian_of_lt hlen, ne_eq,
      not_true_eq_false, if_false]
  · have hread := decodeHello_toCbor_append (Nat.lt_trans hlen (by decide)) []
    rwa [List.append_nil] at hread

theorem exists_encode {m : Message} (hm : (Wire.message.toCbor m).length ≤ maxLength) :
    ∃ frame, encode m = .ok frame ∧ messageFormat.IsFrameOf m frame := by
  have hlen : (Wire.message.toCbor m).length < 256 ^ 4 := Nat.lt_of_le_of_lt hm (by decide)
  refine ⟨_, if_neg (Nat.not_lt.mpr hm), _, _, rfl, Bytes.length_bigEndian _ _, ?_, ?_⟩
  · simp only [messageFormat, payloadLength, Bytes.toNat_bigEndian_of_lt hlen]
    exact if_neg (Nat.not_lt.mpr hm)
  · have hread := decode_toCbor_append (Nat.lt_trans hlen (by decide)) []
    rwa [List.append_nil] at hread

theorem exists_mapM_encode {messages : List Message}
    (hm : ∀ m ∈ messages, (Wire.message.toCbor m).length ≤ maxLength) :
    ∃ frames, messages.mapM encode = .ok frames ∧ messages.Forall₂ messageFormat.IsFrameOf frames := by
  induction messages with
  | nil => exact ⟨[], rfl, .nil⟩
  | cons m rest ih =>
    obtain ⟨frame, hframe, hm'⟩ := exists_encode (hm m List.mem_cons_self)
    obtain ⟨frames, hframes, hrest⟩ := ih fun m' hm' => hm m' (List.mem_cons_of_mem _ hm')
    refine ⟨frame :: frames, ?_, .cons hm' hrest⟩
    rw [List.mapM_cons, hframe, hframes]
    rfl

variable {α : Type} {f : Format α}

def readings (f : Format α) : (count : Nat) → Pipe → List (Progress Incoming (Except ExchangeError α))
  | 0, _ => []
  | count + 1, p => (read f p (start f)).1 :: readings f count (read f p (start f)).2

theorem readings_nil (hf : f.headerLength ≠ 0) (count : Nat) :
    readings f count ⟨[], true⟩ = List.replicate count (.done (.error .closed)) := by
  induction count with
  | zero => rfl
  | succ count ih => rw [readings, read_nil hf, ih, List.replicate_succ]

theorem readings_take (hf : f.headerLength ≠ 0) {values : List α} {frames : List Bytes}
    (h : values.Forall₂ f.IsFrameOf frames) (n more : Nat) :
    readings f (whole n frames + more) ⟨frames.flatten.take n, true⟩ =
      (values.take (whole n frames)).map (fun a => .done (.ok a)) ++
        List.replicate more (.done (.error .closed)) := by
  induction h generalizing n with
  | nil =>
    rw [List.flatten_nil, List.take_nil, whole, Nat.zero_add]
    exact readings_nil hf more
  | @cons a frame values frames hframe _ ih =>
    rw [List.flatten_cons, List.take_append, whole]
    split_ifs with hle
    · rw [List.take_of_length_le hle, Nat.add_right_comm, readings, read_frame hf hframe, ih,
        List.take_succ_cons]
      rfl
    · have hcut : n < frame.length := Nat.not_le.mp hle
      rw [Nat.sub_eq_zero_of_le (Nat.le_of_lt hcut), List.take_zero, List.append_nil, Nat.zero_add]
      cases more with
      | zero => rfl
      | succ more =>
        rw [readings, read_cut hf hframe hcut, readings_nil hf]
        rfl

/-- Of a stream that breaks off after any number of bytes, the frames that are whole are read in
their order, and from then on its end. What is too long is neither written nor read. -/
theorem readings_stream :
    (∀ (h : Hello) (messages : List Message), (Wire.hello.toCbor h).length ≤ maxHelloLength →
      (∀ m ∈ messages, (Wire.message.toCbor m).length ≤ maxLength) →
      ∃ opening frames, encodeHello h = .ok opening ∧ messages.mapM encode = .ok frames ∧
        ∀ n more,
          let first := read helloFormat ⟨(opening ++ frames.flatten).take n, true⟩ (start helloFormat)
          let count := whole n (opening :: frames)
          (∀ k ≤ frames.length + 1, k ≤ count ↔ ((opening :: frames).take k).flatten.length ≤ n) ∧
            first.1 = .done (if 0 < count then .ok h else .error .closed) ∧
            readings messageFormat (count - 1 + more) first.2 =
              (messages.take (count - 1)).map (fun m => .done (.ok m)) ++
                List.replicate more (.done (.error .closed))) ∧
      (∀ h, maxHelloLength < (Wire.hello.toCbor h).length →
        encodeHello h = .error (.tooLarge (Wire.hello.toCbor h).length)) ∧
      (∀ m, maxLength < (Wire.message.toCbor m).length →
        encode m = .error (.tooLarge (Wire.message.toCbor m).length)) ∧
      ∀ header rest closed, header.length = headerLength → maxLength < Bytes.toNat header →
        read messageFormat ⟨header ++ rest, closed⟩ (start messageFormat) =
          (.done (.error (.codec (.tooLarge (Bytes.toNat header)))), ⟨rest, closed⟩) := by
  have hello_header : helloFormat.headerLength ≠ 0 := by decide
  have message_header : messageFormat.headerLength ≠ 0 := by decide
  refine ⟨?_, fun h hh => if_pos hh, fun m hm => if_pos hm, ?_⟩
  · intro h messages hh hm
    obtain ⟨opening, hopening, hframe⟩ := exists_encodeHello hh
    obtain ⟨frames, hframes, hvalues⟩ := exists_mapM_encode hm
    refine ⟨opening, frames, hopening, hframes, fun n more => ⟨fun k hk => le_whole_iff hk n, ?_⟩⟩
    rw [List.take_append]
    by_cases hle : opening.length ≤ n
    · rw [List.take_of_length_le hle, read_frame hello_header hframe, whole, if_pos hle]
      exact ⟨rfl, readings_take message_header hvalues _ more⟩
    · have hcut : n < opening.length := Nat.not_le.mp hle
      rw [Nat.sub_eq_zero_of_le (Nat.le_of_lt hcut), List.take_zero, List.append_nil,
        read_cut hello_header hframe hcut, whole, if_neg hle]
      simp only [Nat.zero_sub, Nat.zero_add]
      exact ⟨rfl, readings_nil message_header more⟩
  · intro header rest closed hl hlarge
    have hrefused : payloadLength header = .error (.tooLarge (Bytes.toNat header)) := if_pos hlarge
    exact read_refused message_header hl hrefused rest closed

theorem readings_stream_cut_in_close :
    let hello : Hello := ⟨"attic", "exchange", "1"⟩
    let farewell : Message := .close "bye"
    let long := String.ofList (List.replicate maxLength 'a')
    (∃ opening frames, encodeHello hello = .ok opening ∧ [.ping, farewell].mapM encode = .ok frames ∧
      let first := read helloFormat ⟨(opening ++ frames.flatten).take 80, true⟩ (start helloFormat)
      first.1 = .done (.ok hello) ∧
        readings messageFormat 2 first.2 = [.done (.ok .ping), .done (.error .closed)]) ∧
    (∃ n, encodeHello ⟨long, "", ""⟩ = .error (.tooLarge n)) ∧
    (∃ n, encode (.close long) = .error (.tooLarge n)) ∧
    read messageFormat ⟨[255, 255, 255, 255, 100], false⟩ (start messageFormat) =
      (.done (.error (.codec (.tooLarge 0xffffffff))), ⟨[100], false⟩) := by
  intro hello farewell long
  have hlong : maxLength ≤ (Bytes.ofText long).length := by
    simpa only [List.length_replicate] using Bytes.length_le_ofText (List.replicate maxLength 'a')
  obtain ⟨hread, hhello, hmessage, hheader⟩ := readings_stream
  refine ⟨?_, ⟨_, hhello _ ?_⟩, ⟨_, hmessage _ ?_⟩,
    hheader [255, 255, 255, 255] [100] false rfl (by decide)⟩
  · obtain ⟨opening, frames, hopening, hframes, hall⟩ :=
      hread hello [.ping, farewell] (by decide +kernel) (by decide +kernel)
    refine ⟨opening, frames, hopening, hframes, ?_⟩
    have hcount : (List.cons <$> encodeHello hello <*> [.ping, farewell].mapM encode).map (whole 80) =
        .ok 2 := by
      decide +kernel
    rw [hopening, hframes] at hcount
    have hwhole : whole 80 (opening :: frames) = 2 := Except.ok.inj hcount
    have hcut := (hall 80 1).2
    rw [hwhole] at hcut
    exact hcut
  · exact Nat.lt_of_le_of_lt (Nat.le_trans (by decide) hlong) (Wire.length_deviceName_lt ⟨long, "", ""⟩)
  · exact Nat.lt_of_le_of_lt hlong (Wire.length_reason_lt long)

end Frame

end BlockExchange
