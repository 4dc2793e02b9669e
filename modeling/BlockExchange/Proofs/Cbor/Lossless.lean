import BlockExchange.Proofs.Cbor.RoundTrip

namespace BlockExchange

open Cbor

namespace Range

theorem fits_within {α : Type} {toInt : α → Int} {ofInt : Int → α} {low high : Int} {a : α}
    (ha : low ≤ toInt a ∧ toInt a ≤ high) (hof : ofInt (toInt a) = a) (hlow : -2 ^ 64 ≤ low)
    (hhigh : high < 2 ^ 64) : (⟨toInt, within low high ofInt⟩ : Range α).Fits a := by
  refine ⟨?_, Int.le_trans hlow ha.1, Int.lt_of_le_of_lt ha.2 hhigh⟩
  simp only [within, if_pos ha, hof]

theorem fits_uint8 (n : UInt8) : uint8.Fits n := by
  have hn := n.toNat_lt
  exact fits_within (by omega) (by simp) (by decide) (by decide)

theorem fits_uint32 (n : UInt32) : uint32.Fits n := by
  have hn := n.toNat_lt
  exact fits_within (by omega) (by simp) (by decide) (by decide)

theorem fits_uint64 (n : UInt64) : uint64.Fits n := by
  have hn := n.toNat_lt
  exact fits_within (by omega) (by simp) (by decide) (by decide)

theorem fits_int32 (n : Int32) : int32.Fits n := by
  have hlow := n.le_toInt
  have hhigh := n.toInt_lt
  exact fits_within (by omega) (Int32.ofInt_toInt n) (by decide) (by decide)

theorem fits_int64 (n : Int64) : int64.Fits n := by
  have hlow := n.le_toInt
  have hhigh := n.toInt_lt
  exact fits_within (by omega) (Int64.ofInt_toInt n) (by decide) (by decide)

theorem fits_count {n : Int} (hlow : -2 ^ 63 ≤ n) (hhigh : n < 2 ^ 63) : count.Fits n :=
  fits_within (by simp only [id]; omega) rfl (by decide) (by decide)

theorem fits_smallCount {n : Int} (hlow : -2 ^ 31 ≤ n) (hhigh : n < 2 ^ 31) : smallCount.Fits n :=
  fits_within (by simp only [id]; omega) rfl (by decide) (by decide)

end Range

mutual

def Shape.IsLossless {α : Type} : Shape α → Prop
  | .bool | .text | .octets => True
  | .number range => ∀ a, range.Fits a
  | .optional _ => False
  | .sequence s | .tuple _ s => s.IsLossless
  | .record fields | .closed fields => fields.AreLossless
  | .choice cases => cases.AreLossless
  | .convert read write s => (∀ a, read (write a) = some a) ∧ s.IsLossless

def Fields.AreLossless {α σ : Type} : Fields α σ → Prop
  | .nil => True
  | .cons _ _ s rest => s.IsLossless ∧ rest.AreLossless

def Cases.AreLossless {α : Type} : Cases α → Prop
  | .nil => True
  | .bare _ rest => rest.AreLossless
  | .content _ s rest => s.IsLossless ∧ rest.AreLossless

end

theorem Cbor.length_head_pos (major n : Nat) : 0 < (head major n).length := by
  unfold head
  split_ifs <;> simp

theorem Cbor.length_lt_writeText (text : String) :
    (Bytes.ofText text).length < (writeText text).length := by
  have hh := length_head_pos 3 (Bytes.ofText text).length
  simp only [writeText, List.length_append]
  omega

theorem Cbor.length_writeText_pos (text : String) : 0 < (writeText text).length :=
  Nat.zero_lt_of_lt (length_lt_writeText text)

mutual

theorem Shape.length_toCbor_pos {α : Type} : (s : Shape α) → (a : α) → 0 < (s.toCbor a).length
  | .bool, b => by simp [Shape.toCbor]
  | .number range, a => by
    simp only [Shape.toCbor, writeInt]
    split_ifs <;> exact length_head_pos _ _
  | .text, text => length_writeText_pos text
  | .octets, bytes => by
    simp only [Shape.toCbor, List.length_append]
    exact Nat.add_pos_left (length_head_pos _ _) _
  | .optional _, none => by simp [Shape.toCbor]
  | .optional s, some a => s.length_toCbor_pos a
  | .sequence s, items => by
    simp only [Shape.toCbor, List.length_append]
    exact Nat.add_pos_left (length_head_pos _ _) _
  | .tuple n s, items => by
    simp only [Shape.toCbor, List.length_append]
    exact Nat.add_pos_left (length_head_pos _ _) _
  | .record fields, a => by
    simp only [Shape.toCbor, List.length_append]
    exact Nat.add_pos_left (length_head_pos _ _) _
  | .closed fields, a => by
    simp only [Shape.toCbor, List.length_append]
    exact Nat.add_pos_left (length_head_pos _ _) _
  | .choice cases, a => cases.length_toCbor_pos a
  | .convert _ write s, a => s.length_toCbor_pos (write a)

theorem Cases.length_toCbor_pos {α : Type} : (cases : Cases α) → (a : α) → 0 < (cases.toCbor a).length
  | .nil, e => nomatch e
  | .bare name _, .inl () => length_writeText_pos name
  | .bare _ rest, .inr b => rest.length_toCbor_pos b
  | .content name s _, .inl a => by
    simp only [Cases.toCbor, List.length_append]
    exact Nat.add_pos_left (length_head_pos _ _) _
  | .content _ _ rest, .inr b => rest.length_toCbor_pos b

end

theorem Cbor.length_le_flatMap {α : Type} {write : α → Bytes} (h : ∀ a, 0 < (write a).length)
    (items : List α) : items.length ≤ (items.flatMap write).length := by
  induction items with
  | nil => exact Nat.le_refl 0
  | cons a rest ih =>
    have ha := h a
    simp only [List.flatMap_cons, List.length_append, List.length_cons]
    omega

theorem Cbor.length_le_flatMap_of_mem {α : Type} (write : α → Bytes) {items : List α} {a : α}
    (h : a ∈ items) : (write a).length ≤ (items.flatMap write).length := by
  obtain ⟨front, back, rfl⟩ := List.append_of_mem h
  simp only [List.flatMap_append, List.flatMap_cons, List.length_append]
  omega

mutual

theorem Shape.fits_of_length {α : Type} : (s : Shape α) → s.IsLossless → {a : α} →
    (s.toCbor a).length < 2 ^ 64 → s.Fits a
  | .bool, _, _, _ => trivial
  | .number _, hs, a, _ => hs a
  | .text, _, text, h => by
    simp only [Shape.toCbor, writeText, List.length_append] at h
    exact Nat.lt_of_le_of_lt (Nat.le_add_left _ _) h
  | .octets, _, bytes, h => by
    simp only [Shape.toCbor, List.length_append] at h
    exact Nat.lt_of_le_of_lt (Nat.le_add_left _ _) h
  | .optional _, hs, _, _ => hs.elim
  | .sequence s, hs, items, h => by
    simp only [Shape.toCbor, List.length_append] at h
    have hitems : (items.flatMap s.toCbor).length < 2 ^ 64 :=
      Nat.lt_of_le_of_lt (Nat.le_add_left _ _) h
    constructor
    · exact Nat.lt_of_le_of_lt (length_le_flatMap s.length_toCbor_pos items) hitems
    · intro a ha
      exact s.fits_of_length hs (Nat.lt_of_le_of_lt (length_le_flatMap_of_mem s.toCbor ha) hitems)
  | .tuple n s, hs, items, h => by
    simp only [Shape.toCbor, List.length_append] at h
    have hitems : (items.1.flatMap s.toCbor).length < 2 ^ 64 :=
      Nat.lt_of_le_of_lt (Nat.le_add_left _ _) h
    constructor
    · rw [← items.2]
      exact Nat.lt_of_le_of_lt (length_le_flatMap s.length_toCbor_pos items.1) hitems
    · intro a ha
      exact s.fits_of_length hs (Nat.lt_of_le_of_lt (length_le_flatMap_of_mem s.toCbor ha) hitems)
  | .record fields, hs, a, h => by
    simp only [Shape.toCbor, List.length_append] at h
    exact fields.fits_of_length hs (Nat.lt_of_le_of_lt (Nat.le_add_left _ _) h)
  | .closed fields, hs, a, h => by
    simp only [Shape.toCbor, List.length_append] at h
    exact fields.fits_of_length hs (Nat.lt_of_le_of_lt (Nat.le_add_left _ _) h)
  | .choice cases, hs, a, h => cases.fits_of_length hs h
  | .convert _ _ s, hs, a, h => ⟨hs.1 a, s.fits_of_length hs.2 h⟩

theorem Fields.fits_of_length {α σ : Type} : (fields : Fields α σ) → fields.AreLossless → {a : α} →
    (fields.toCbor a).length < 2 ^ 64 → fields.Fits a
  | .nil, _, (), _ => trivial
  | .cons name _ s rest, hs, (a, others), h => by
    simp only [Fields.toCbor, List.length_append] at h
    exact ⟨s.fits_of_length hs.1 (by omega), rest.fits_of_length hs.2 (by omega)⟩

theorem Cases.fits_of_length {α : Type} : (cases : Cases α) → cases.AreLossless → {a : α} →
    (cases.toCbor a).length < 2 ^ 64 → cases.Fits a
  | .nil, _, e, _ => nomatch e
  | .bare _ _, _, .inl (), _ => trivial
  | .bare _ rest, hs, .inr b, h => rest.fits_of_length hs h
  | .content name s _, hs, .inl a, h => by
    simp only [Cases.toCbor, List.length_append] at h
    exact s.fits_of_length hs.1 (by omega)
  | .content _ _ rest, hs, .inr b, h => rest.fits_of_length hs.2 h

end

end BlockExchange
