import BlockExchange.Model.DeviceId
import BlockExchange.Proofs.Traversal
import Mathlib.Tactic.ByContra
import Mathlib.Tactic.SplitIfs

namespace BlockExchange

theorem Bytes.ofText_ofList (chars : List Char) :
    ofText (String.ofList chars) = chars.flatMap String.utf8EncodeChar := by
  simp [ofText, List.utf8Encode, List.data_toByteArray]

namespace Hex

def digitByte (n : Nat) : UInt8 :=
  UInt8.ofNat (digit n).toNat

theorem utf8EncodeChar_digit {n : Nat} (hn : n < 16) :
    String.utf8EncodeChar (digit n) = [digitByte n] := by
  revert n
  decide

theorem value?_digitByte {n : Nat} (hn : n < 16) : value? (digitByte n) = some (UInt8.ofNat n) := by
  revert n
  decide

theorem ofText_encode (bytes : Bytes) :
    Bytes.ofText (encode bytes) =
      bytes.flatMap fun b => [digitByte (b.toNat / 16), digitByte (b.toNat % 16)] := by
  rw [encode, Bytes.ofText_ofList, List.flatMap_assoc]
  congr 1
  funext b
  have hb := b.toNat_lt
  simp only [List.flatMap_cons, List.flatMap_nil, utf8EncodeChar_digit (n := b.toNat / 16) (by omega),
    utf8EncodeChar_digit (n := b.toNat % 16) (by omega), List.append_nil, List.singleton_append]

@[simp] theorem length_ofText_encode (bytes : Bytes) :
    (Bytes.ofText (encode bytes)).length = 2 * bytes.length := by
  simp [ofText_encode, List.length_flatMap, List.map_const', Nat.mul_comm]

theorem digitAt_digitByte {n : Nat} (hn : n < 16) (position : Nat) :
    digitAt position (digitByte n) = .ok (UInt8.ofNat n) := by
  simp only [digitAt, value?_digitByte hn]

theorem decodePairs_digits (bytes : Bytes) (position : Nat) (acc : Bytes) :
    decodePairs position acc
      (bytes.flatMap fun b => [digitByte (b.toNat / 16), digitByte (b.toNat % 16)]) =
        .ok (acc.reverse ++ bytes) := by
  induction bytes generalizing position acc with
  | nil => simp [decodePairs]
  | cons b bytes ih =>
    have hb := b.toNat_lt
    have hpair : UInt8.ofNat (b.toNat / 16) * 16 + UInt8.ofNat (b.toNat % 16) = b := by
      apply UInt8.toNat_inj.mp
      simp only [UInt8.toNat_add, UInt8.toNat_mul, UInt8.toNat_ofNat']
      simp
      omega
    simp only [List.flatMap_cons, List.cons_append, List.nil_append, decodePairs,
      digitAt_digitByte (n := b.toNat / 16) (by omega), digitAt_digitByte (n := b.toNat % 16) (by omega),
      bind, Except.bind, hpair, ih, List.reverse_cons, List.append_assoc]

theorem decode_encode (bytes : Bytes) : decode (encode bytes) = .ok bytes := by
  have hl : ¬ (Bytes.ofText (encode bytes)).length % 2 = 1 := by rw [length_ofText_encode]; omega
  rw [decode, if_neg hl, ofText_encode, decodePairs_digits]
  rfl

theorem digit_lt_digit {n k : Nat} (hk : k < 16) (hn : n < k) : digit n < digit k := by
  have h : ∀ k < 16, ∀ n < k, digit n < digit k := by decide
  exact h k hk n hn

theorem digits_lt_of_lt {a b : UInt8} (h : a < b) (front back : List Char) :
    digit (a.toNat / 16) :: digit (a.toNat % 16) :: front <
      digit (b.toNat / 16) :: digit (b.toNat % 16) :: back := by
  have hb := b.toNat_lt
  have hab := UInt8.lt_iff_toNat_lt.mp h
  rw [List.cons_lt_cons_iff, List.cons_lt_cons_iff]
  by_cases hhigh : a.toNat / 16 = b.toNat / 16
  · rw [hhigh]
    exact .inr ⟨rfl, .inl (digit_lt_digit (by omega) (by omega))⟩
  · exact .inl (digit_lt_digit (by omega) (by omega))

theorem encode_lt_of_compare {a b : Bytes} (h : compare a b = .lt) : encode a < encode b := by
  rw [String.lt_iff, encode, encode, String.toList_ofList, String.toList_ofList]
  induction a generalizing b with
  | nil =>
    cases b with
    | nil => cases h
    | cons y b => exact List.nil_lt_cons _ _
  | cons x a ih =>
    cases b with
    | nil => cases h
    | cons y b =>
      rw [List.compare_eq_compareLex, List.compareLex_cons_cons, Ordering.then_eq_lt] at h
      rcases h with hxy | ⟨hxy, hrest⟩
      · exact digits_lt_of_lt (compareOfLessAndEq_eq_lt.mp hxy) _ _
      · cases Std.LawfulEqOrd.eq_of_compare hxy
        exact List.cons_lt_cons_self.mpr (List.cons_lt_cons_self.mpr (ih hrest))

theorem compare_encode (a b : Bytes) : compare (encode a) (encode b) = compare a b := by
  have hlt : ∀ a b : Bytes, compare a b = .lt → compare (encode a) (encode b) = .lt :=
    fun a b h => compareOfLessAndEq_eq_lt.mpr (encode_lt_of_compare h)
  cases h : compare a b with
  | lt => exact hlt a b h
  | eq =>
    cases Std.LawfulEqOrd.eq_of_compare h
    exact Std.ReflOrd.compare_self
  | gt => exact Std.OrientedCmp.gt_of_lt (hlt b a (Std.OrientedCmp.lt_of_gt h))

theorem compare_eq_lt_iff {a b : Bytes} : compare a b = .lt ↔ a < b := by
  induction a generalizing b with
  | nil => cases b <;> simp
  | cons x a ih =>
    cases b with
    | nil => simp
    | cons y b =>
      rw [List.compare_eq_compareLex, List.compareLex_cons_cons, Ordering.then_eq_lt,
        ← List.compare_eq_compareLex, ih, List.cons_lt_cons_iff, Std.compare_eq_lt,
        Std.LawfulEqOrd.compare_eq_iff_eq]

theorem encode_lt_encode {a b : Bytes} : encode a < encode b ↔ a < b := by
  rw [← compare_eq_lt_iff, ← compare_encode]
  exact compareOfLessAndEq_eq_lt.symm

def IsDigit (c : Char) : Prop :=
  ('0' ≤ c ∧ c ≤ '9') ∨ ('a' ≤ c ∧ c ≤ 'f') ∨ ('A' ≤ c ∧ c ≤ 'F')

instance : DecidablePred IsDigit := fun c =>
  inferInstanceAs (Decidable (('0' ≤ c ∧ c ≤ '9') ∨ ('a' ≤ c ∧ c ≤ 'f') ∨ ('A' ≤ c ∧ c ≤ 'F')))

theorem toNat_lt_of_isDigit {c : Char} (h : IsDigit c) : c.toNat < 128 := by
  rcases h with h | h | h
  all_goals
    have hle := Char.le_def.mp h.2
    have hle' := UInt32.le_iff_toNat_le.mp hle
    exact Nat.lt_of_le_of_lt hle' (by decide)

theorem exists_value_of_isDigit {c : Char} (h : IsDigit c) :
    String.utf8EncodeChar c = [UInt8.ofNat c.toNat] ∧
      ∃ v ∈ value? (UInt8.ofNat c.toNat), v < 16 ∧ digit v.toNat = c.toLower := by
  have hall : ∀ n < 128, IsDigit (Char.ofNat n) →
      String.utf8EncodeChar (Char.ofNat n) = [UInt8.ofNat n] ∧
        ∃ v ∈ value? (UInt8.ofNat n), v < 16 ∧ digit v.toNat = (Char.ofNat n).toLower := by
    decide
  have hc := hall c.toNat (toNat_lt_of_isDigit h)
  rw [Char.ofNat_toNat] at hc
  exact hc h

theorem exists_value?_eq_none {c : Char} (h : ¬IsDigit c) :
    ∃ b ∈ String.utf8EncodeChar c, value? b = none := by
  by_cases hc : c.toNat < 128
  · have hall : ∀ n < 128, ¬IsDigit (Char.ofNat n) →
        ∃ b ∈ String.utf8EncodeChar (Char.ofNat n), value? b = none := by
      decide
    have hnone := hall c.toNat hc
    rw [Char.ofNat_toNat] at hnone
    exact hnone h
  · have hall : ∀ n < 64, value? (UInt8.ofNat (n + 128)) = none := by decide
    have hmem : UInt8.ofNat (c.toNat % 64 + 128) ∈ String.utf8EncodeChar c := by
      have hbig : ¬c.val.toNat ≤ 127 := fun hle => hc (Nat.lt_succ_of_le hle)
      unfold String.utf8EncodeChar
      simp only [if_neg hbig]
      split_ifs <;> simp
    exact ⟨_, hmem, hall _ (Nat.mod_lt _ (by decide))⟩

theorem value?_of_decodePairs {position : Nat} {acc input bytes : Bytes}
    (h : decodePairs position acc input = .ok bytes) : ∀ b ∈ input, value? b ≠ none := by
  have hdigit : ∀ {position : Nat} {b v : UInt8}, digitAt position b = .ok v → value? b ≠ none := by
    intro position b v hv hnone
    rw [digitAt, hnone] at hv
    cases hv
  fun_induction decodePairs position acc input with
  | case1 => simp
  | case2 => cases h
  | case3 position acc high low rest ih =>
    obtain ⟨v, hhigh, h⟩ := bind_eq_ok_iff.mp h
    obtain ⟨w, hlow, h⟩ := bind_eq_ok_iff.mp h
    simp only [List.forall_mem_cons]
    exact ⟨hdigit hhigh, hdigit hlow, ih v w h⟩

theorem ofText_eq_flatMap (text : String) :
    Bytes.ofText text = text.toList.flatMap String.utf8EncodeChar := by
  rw [← Bytes.ofText_ofList, String.ofList_toList]

theorem isDigit_of_decode {text : String} {bytes : Bytes} (h : decode text = .ok bytes) :
    ∀ c ∈ text.toList, IsDigit c := by
  intro c hc
  by_contra hnot
  obtain ⟨b, hb, hnone⟩ := exists_value?_eq_none hnot
  rw [decode] at h
  split_ifs at h
  apply value?_of_decodePairs h b _ hnone
  rw [ofText_eq_flatMap]
  exact List.mem_flatMap.mpr ⟨c, hc, hb⟩

theorem exists_decodePairs {chars : List Char} (hd : ∀ c ∈ chars, IsDigit c)
    (heven : chars.length % 2 = 0) (position : Nat) (acc : Bytes) :
    ∃ bytes, decodePairs position acc (chars.flatMap String.utf8EncodeChar) =
        .ok (acc.reverse ++ bytes) ∧
      (bytes.flatMap fun b => [digit (b.toNat / 16), digit (b.toNat % 16)]) =
        chars.map Char.toLower := by
  match chars with
  | [] => exact ⟨[], by simp [decodePairs], rfl⟩
  | [_] => cases heven
  | high :: low :: rest =>
    obtain ⟨hhigh, v, hv, hv16, hvlow⟩ := exists_value_of_isDigit (hd high (by simp))
    obtain ⟨hlow, w, hw, hw16, hwlow⟩ := exists_value_of_isDigit (hd low (by simp))
    have hrest : ∀ c ∈ rest, IsDigit c := fun c hc => hd c (by simp [hc])
    have heven' : rest.length % 2 = 0 := by
      simp only [List.length_cons] at heven
      omega
    obtain ⟨bytes, hbytes, hdigits⟩ :=
      exists_decodePairs hrest heven' (position + 2) ((v * 16 + w) :: acc)
    have hread : ∀ {position : Nat} {b v : UInt8}, v ∈ value? b → digitAt position b = .ok v := by
      intro position b v hv
      rw [digitAt, Option.mem_def.mp hv]
    have hv16' := UInt8.lt_iff_toNat_lt.mp hv16
    have hw16' := UInt8.lt_iff_toNat_lt.mp hw16
    have hbyte : (v * 16 + w).toNat = v.toNat * 16 + w.toNat := by
      simp only [UInt8.toNat_add, UInt8.toNat_mul]
      simp at hv16' hw16' ⊢
      omega
    have hhalves : (v * 16 + w).toNat / 16 = v.toNat ∧ (v * 16 + w).toNat % 16 = w.toNat := by
      simp at hw16'
      omega
    refine ⟨(v * 16 + w) :: bytes, ?_, ?_⟩
    · simp only [List.flatMap_cons, hhigh, hlow, List.singleton_append, decodePairs, hread hv,
        hread hw, bind, Except.bind, hbytes, List.reverse_cons, List.append_assoc]
    · simp only [List.flatMap_cons, hhalves, hvlow, hwlow, hdigits, List.map_cons,
        List.cons_append, List.nil_append]

theorem length_encode (bytes : Bytes) : (encode bytes).toList.length = 2 * bytes.length := by
  simp [encode, List.length_flatMap, List.map_const', Nat.mul_comm]

theorem length_ofText_of_isDigit {text : String} (hd : ∀ c ∈ text.toList, IsDigit c) :
    (Bytes.ofText text).length = text.toList.length := by
  have hone : text.toList.map (fun c => (String.utf8EncodeChar c).length) =
      text.toList.map fun _ => 1 :=
    List.map_congr_left fun c hc => congrArg List.length (exists_value_of_isDigit (hd c hc)).1
  rw [ofText_eq_flatMap, List.length_flatMap, hone, List.map_const', List.sum_replicate_nat,
    Nat.mul_one]

theorem toList_toLower (text : String) : text.toLower.toList = text.toList.map Char.toLower :=
  String.toList_map

theorem exists_decode {text : String} (hd : ∀ c ∈ text.toList, IsDigit c)
    (heven : text.toList.length % 2 = 0) :
    ∃ bytes, decode text = .ok bytes ∧ encode bytes = text.toLower := by
  obtain ⟨bytes, hbytes, hdigits⟩ := exists_decodePairs hd heven 0 []
  have hodd : ¬(Bytes.ofText text).length % 2 = 1 := by
    rw [length_ofText_of_isDigit hd]
    omega
  refine ⟨bytes, ?_, ?_⟩
  · rw [decode, if_neg hodd, ofText_eq_flatMap, hbytes]
    rfl
  · rw [encode, hdigits, ← toList_toLower, String.ofList_toList]

theorem length_of_encode {text : String} {bytes : Bytes} (h : encode bytes = text.toLower) :
    2 * bytes.length = text.toList.length := by
  rw [← length_encode, h, toList_toLower, List.length_map]

theorem decode_eq_ok_iff {text : String} {bytes : Bytes} :
    decode text = .ok bytes ↔
      text.toList.length % 2 = 0 ∧ (∀ c ∈ text.toList, IsDigit c) ∧ encode bytes = text.toLower := by
  constructor
  · intro h
    have hd := isDigit_of_decode h
    have heven : text.toList.length % 2 = 0 := by
      rw [decode, length_ofText_of_isDigit hd] at h
      split_ifs at h
      omega
    obtain ⟨bytes', hdecode, hencode⟩ := exists_decode hd heven
    rw [h] at hdecode
    cases hdecode
    exact ⟨heven, hd, hencode⟩
  · rintro ⟨heven, hd, hencode⟩
    obtain ⟨bytes', hdecode, hencode'⟩ := exists_decode hd heven
    rw [hdecode, ← decode_encode bytes', hencode', ← hencode, decode_encode]

end Hex

namespace DeviceId

theorem ofHex_toHex (id : DeviceId) : ofHex id.toHex = .ok id := by
  simp [ofHex, toHex, Hex.decode_encode, ofBytes?, id.length_eq]

theorem toHex_injective : Function.Injective toHex := fun a b h => by
  have ha := ofHex_toHex a
  rw [h, ofHex_toHex] at ha
  exact (Except.ok.inj ha).symm

def IsText (text : String) : Prop :=
  text.toList.length = 64 ∧ ∀ c ∈ text.toList, Hex.IsDigit c

theorem ofHex_eq_ok_iff {text : String} {id : DeviceId} :
    ofHex text = .ok id ↔ IsText text ∧ id.toHex = text.toLower := by
  constructor
  · intro h
    unfold ofHex at h
    cases hd : Hex.decode text with
    | error e => simp [hd] at h
    | ok bytes =>
      rw [hd] at h
      by_cases hlen : bytes.length = 32
      · simp only [ofBytes?, hlen, dif_pos] at h
        cases h
        obtain ⟨-, hdigits, hencode⟩ := Hex.decode_eq_ok_iff.mp hd
        have hlength := Hex.length_of_encode hencode
        exact ⟨⟨by omega, hdigits⟩, hencode⟩
      · simp [ofBytes?, hlen] at h
  · rintro ⟨⟨hlength, hdigits⟩, htext⟩
    have hd : Hex.decode text = .ok id.bytes := Hex.decode_eq_ok_iff.mpr ⟨by omega, hdigits, htext⟩
    simp [ofHex, hd, ofBytes?, id.length_eq]

theorem exists_ofHex_iff {text : String} : (∃ id, ofHex text = .ok id) ↔ IsText text := by
  constructor
  · rintro ⟨id, h⟩
    exact (ofHex_eq_ok_iff.mp h).1
  · rintro ⟨hlength, hdigits⟩
    obtain ⟨bytes, hdecode, hencode⟩ := Hex.exists_decode hdigits (by omega)
    have hlen : bytes.length = 32 := by
      have hlength' := Hex.length_of_encode hencode
      omega
    exact ⟨⟨bytes, hlen⟩, by simp [ofHex, hdecode, ofBytes?, hlen]⟩

theorem compare_toHex (a b : DeviceId) : compare a.toHex b.toHex = compare a b :=
  Hex.compare_encode a.bytes b.bytes

end DeviceId

end BlockExchange
