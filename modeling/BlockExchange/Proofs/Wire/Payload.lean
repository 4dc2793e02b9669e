import BlockExchange.Proofs.Cbor.Lossless
import BlockExchange.Proofs.Cbor.Prefix
import BlockExchange.Wire.Frame

namespace BlockExchange

open Range

theorem DeviceId.isLossless_shape : DeviceId.shape.IsLossless := ⟨fun _ => rfl, fits_uint8⟩

theorem Version.isLossless_shape : Version.shape.IsLossless :=
  ⟨fun _ => rfl, fits_uint64, fits_uint64, trivial⟩

namespace Wire

theorem isLossless_hello : hello.IsLossless := ⟨fun _ => rfl, trivial, trivial, trivial, trivial⟩

theorem isLossless_offeredDevice : offeredDevice.IsLossless :=
  ⟨fun _ => rfl, DeviceId.isLossless_shape, trivial, trivial, fits_int64, trivial, fits_uint64, trivial⟩

theorem isLossless_offeredFolder : offeredFolder.IsLossless :=
  ⟨fun _ => rfl, trivial, trivial, trivial, trivial, trivial, trivial, trivial,
    isLossless_offeredDevice, trivial⟩

theorem isLossless_blockEntry : blockEntry.IsLossless :=
  ⟨fun _ => rfl, fits_int64, fits_int32, fits_uint8, fits_uint32, trivial⟩

theorem isLossless_fileEntry : fileEntry.IsLossless :=
  ⟨fun _ => rfl, trivial, fits_int32, fits_int64, fits_uint32, fits_int64, fits_int32, fits_uint64,
    trivial, trivial, trivial, Version.isLossless_shape, fits_int64, fits_int32,
    isLossless_blockEntry, trivial, trivial⟩

theorem isLossless_indexPart : indexPart.IsLossless :=
  ⟨fun _ => rfl, trivial, isLossless_fileEntry, trivial⟩

theorem isLossless_blockRequest : blockRequest.IsLossless :=
  ⟨fun _ => rfl, fits_int32, trivial, trivial, fits_int64, fits_int32, fits_uint8, trivial, trivial⟩

theorem isLossless_errorCode : errorCode.IsLossless := by
  constructor
  · intro code
    cases code <;> rfl
  · trivial

theorem isLossless_blockResponse : blockResponse.IsLossless :=
  ⟨fun _ => rfl, fits_int32, trivial, isLossless_errorCode, trivial⟩

theorem isLossless_progressUpdate : progressUpdate.IsLossless :=
  ⟨fun _ => rfl, trivial, Version.isLossless_shape, fits_int32, trivial⟩

theorem isLossless_downloadProgress : downloadProgress.IsLossless :=
  ⟨fun _ => rfl, trivial, isLossless_progressUpdate, trivial⟩

theorem isLossless_clusterConfig : clusterConfig.IsLossless :=
  ⟨fun _ => rfl, isLossless_offeredFolder, trivial⟩

theorem isLossless_closeReason : closeReason.IsLossless := ⟨fun _ => rfl, trivial, trivial⟩

theorem isLossless_message : message.IsLossless := by
  constructor
  · intro m
    cases m <;> rfl
  · exact ⟨isLossless_clusterConfig, isLossless_indexPart, isLossless_indexPart,
      isLossless_blockRequest, isLossless_blockResponse, isLossless_downloadProgress,
      isLossless_closeReason, trivial⟩

end Wire

structure Shape.IsExact {α : Type} (s : Shape α) : Prop where
  lossless : s.IsLossless
  wellNamed : s.isWellNamed = true
  height : s.height ≤ Cbor.maxDepth

namespace Shape.IsExact

variable {α : Type} {s : Shape α} {a : α}

theorem ofCbor_append (h : s.IsExact) (ha : (s.toCbor a).length < 2 ^ 64) (rest : Bytes) :
    s.ofCbor (s.toCbor a ++ rest) = .ok a :=
  Shape.ofCbor_append h.wellNamed (s.fits_of_length h.lossless ha) h.height rest

theorem ofCbor_of_append (h : s.IsExact) (ha : (s.toCbor a).length < 2 ^ 64) {front back : Bytes}
    (hs : front ++ back = s.toCbor a) (hb : back ≠ []) : ∃ e, s.ofCbor front = .error e :=
  Shape.ofCbor_of_append h.wellNamed (s.fits_of_length h.lossless ha) h.height hs hb

end Shape.IsExact

theorem Wire.isExact_hello : hello.IsExact := ⟨isLossless_hello, by decide +kernel, by decide⟩

theorem Wire.isExact_message : message.IsExact := ⟨isLossless_message, by decide +kernel, by decide⟩

namespace Frame

variable {m : Message} {h : Hello}

theorem decode_toCbor_append (hm : (Wire.message.toCbor m).length < 2 ^ 64) (rest : Bytes) :
    decode (Wire.message.toCbor m ++ rest) = .ok m := by
  rw [decode, Wire.isExact_message.ofCbor_append hm rest]
  rfl

theorem decodeHello_toCbor_append (hh : (Wire.hello.toCbor h).length < 2 ^ 64) (rest : Bytes) :
    decodeHello (Wire.hello.toCbor h ++ rest) = .ok h := by
  rw [decodeHello, Wire.isExact_hello.ofCbor_append hh rest]
  rfl

theorem decode_payload :
    (∀ m : Message, (Wire.message.toCbor m).length < 2 ^ 64 →
      (∀ rest, decode (Wire.message.toCbor m ++ rest) = .ok m) ∧
      ∀ front back, front ++ back = Wire.message.toCbor m → back ≠ [] →
        ∃ e, decode front = .error e) ∧
    ∀ h : Hello, (Wire.hello.toCbor h).length < 2 ^ 64 →
      (∀ rest, decodeHello (Wire.hello.toCbor h ++ rest) = .ok h) ∧
      ∀ front back, front ++ back = Wire.hello.toCbor h → back ≠ [] →
        ∃ e, decodeHello front = .error e := by
  constructor
  · intro m hm
    refine ⟨decode_toCbor_append hm, fun front back hs hb => ?_⟩
    obtain ⟨e, he⟩ := Wire.isExact_message.ofCbor_of_append hm hs hb
    exact ⟨.decode e, by rw [decode, he]; rfl⟩
  · intro h hh
    refine ⟨decodeHello_toCbor_append hh, fun front back hs hb => ?_⟩
    obtain ⟨e, he⟩ := Wire.isExact_hello.ofCbor_of_append hh hs hb
    exact ⟨.decode e, by rw [decodeHello, he]; rfl⟩

theorem decode_payload_response :
    let response : Message := .response { id := -1, data := [1, 2, 3] }
    let hello : Hello := ⟨"attic", "exchange", "1"⟩
    decode (Wire.message.toCbor response ++ [0]) = .ok response ∧
      (∃ e, decode (Wire.message.toCbor response).dropLast = .error e) ∧
      decodeHello (Wire.hello.toCbor hello ++ [0]) = .ok hello ∧
      ∃ e, decodeHello (Wire.hello.toCbor hello).dropLast = .error e := by
  intro response hello
  have hresponse : (Wire.message.toCbor response).length < 2 ^ 64 := by decide +kernel
  have hhello : (Wire.hello.toCbor hello).length < 2 ^ 64 := by decide +kernel
  have hr : Wire.message.toCbor response ≠ [] := by decide +kernel
  have hh : Wire.hello.toCbor hello ≠ [] := by decide +kernel
  obtain ⟨hreadr, hbreakr⟩ := decode_payload.1 response hresponse
  obtain ⟨hreadh, hbreakh⟩ := decode_payload.2 hello hhello
  exact ⟨hreadr [0], hbreakr _ _ (List.dropLast_concat_getLast hr) (List.cons_ne_nil _ _),
    hreadh [0], hbreakh _ _ (List.dropLast_concat_getLast hh) (List.cons_ne_nil _ _)⟩

end Frame

end BlockExchange
