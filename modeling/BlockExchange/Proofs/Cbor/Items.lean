import BlockExchange.Cbor.Reader
import BlockExchange.Cbor.Writer
import Mathlib.Tactic.IntervalCases
import Mathlib.Tactic.SplitIfs

namespace BlockExchange

theorem Bytes.toNat_bigEndian (width n : Nat) : toNat (bigEndian width n) = n % 256 ^ width := by
  induction width generalizing n with
  | zero => simp [bigEndian, toNat, Nat.mod_one]
  | succ width ih =>
    rw [toNat_bigEndian_succ, ih, Nat.pow_succ', Nat.mod_mul]
    omega

theorem Bytes.toNat_bigEndian_of_lt {width n : Nat} (hn : n < 256 ^ width) :
    toNat (bigEndian width n) = n := by
  rw [toNat_bigEndian, Nat.mod_eq_of_lt hn]

theorem Bytes.split?_bigEndian {width n : Nat} (hn : n < 256 ^ width) (rest : Bytes) :
    ∃ front, split? width (bigEndian width n ++ rest) = some (front, rest) ∧ toNat front = n := by
  refine ⟨bigEndian width n, ?_, ?_⟩
  · simpa only [length_bigEndian] using split?_append (bigEndian width n) rest
  · exact toNat_bigEndian_of_lt hn

theorem Bytes.ofText_injective : Function.Injective ofText := fun s t h => by
  have hs := toText?_ofText s
  rw [h, toText?_ofText] at hs
  exact (Option.some.inj hs).symm

namespace Cbor

theorem take_append (bytes rest : Bytes) : take bytes.length (bytes ++ rest) = .ok (bytes, rest) := by
  simp only [take, Bytes.split?_append]

theorem toNat_first {major low : Nat} (hm : major < 7) (hl : low < 32) :
    (UInt8.ofNat (major * 32 + low)).toNat / 32 = major ∧
      (UInt8.ofNat (major * 32 + low)).toNat % 32 = low := by
  rw [UInt8.toNat_ofNat']
  omega

theorem readHead_cons {major low n : Nat} {h : Head} {bytes rest : Bytes} (hm : major < 7)
    (hl : low < 32) (ha : readArgument low bytes = .ok (some n, rest))
    (hh : Head.ofParts major 0 (some n) = .ok h) :
    readHead (UInt8.ofNat (major * 32 + low) :: bytes) = .ok (h, rest) := by
  have ⟨hmajor, hlow⟩ := toNat_first hm hl
  have hparts : Head.ofParts major low (some n) = .ok h := by
    rw [← hh]
    interval_cases major <;> rfl
  simp only [readHead, hmajor, hlow, ha, hparts, bind, Except.bind, pure, Except.pure]

theorem readHead_head {major n : Nat} {h : Head} (hm : major < 7) (hn : n < 2 ^ 64)
    (hh : Head.ofParts major 0 (some n) = .ok h) (rest : Bytes) :
    readHead (head major n ++ rest) = .ok (h, rest) := by
  have wide (width : Nat) {low : Nat} (hw : n < 256 ^ width)
      (hl : low = 24 ∧ width = 1 ∨ low = 25 ∧ width = 2 ∨ low = 26 ∧ width = 4 ∨
        low = 27 ∧ width = 8) :
      readHead (UInt8.ofNat (major * 32 + low) :: (Bytes.bigEndian width n ++ rest)) =
        .ok (h, rest) := by
    obtain ⟨front, hs, hv⟩ := Bytes.split?_bigEndian hw rest
    refine readHead_cons hm (by omega) ?_ hh
    rcases hl with ⟨rfl, rfl⟩ | ⟨rfl, rfl⟩ | ⟨rfl, rfl⟩ | ⟨rfl, rfl⟩ <;>
      simp [readArgument, hs, hv]
  unfold head
  split_ifs with h₁ h₂ h₃ h₄
  · exact readHead_cons hm (by omega) (by simp [readArgument, h₁]) hh
  · exact wide 1 (by omega) (by simp)
  · exact wide 2 (by omega) (by simp)
  · exact wide 4 (by omega) (by simp)
  · exact wide 8 (by omega) (by simp)

theorem untagged_head {major n limit : Nat} {h : Head} (hm : major < 6) (hn : n < 2 ^ 64)
    (hh : Head.ofParts major 0 (some n) = .ok h) (rest : Bytes) :
    untagged (limit + 1) (head major n ++ rest) = .ok (h, rest) := by
  simp only [untagged, readHead_head (by omega) hn hh, bind, Except.bind]
  have : ∀ t, h ≠ .tag t := by
    rintro t rfl
    interval_cases major <;> simp [Head.ofParts] at hh
  cases h <;> first | rfl | exact absurd rfl (this _)

theorem readInt_writeInt {n : Int} {limit : Nat} (hlow : -2 ^ 64 ≤ n) (hhigh : n < 2 ^ 64)
    (rest : Bytes) : readInt (limit + 1) (writeInt n ++ rest) = .ok (n, rest) := by
  unfold writeInt
  split_ifs with h
  · have hr : readHead (head 0 n.toNat ++ rest) = .ok (.positive n.toNat, rest) :=
      readHead_head (by omega) (by omega) rfl rest
    simp only [readInt, hr, bind, Except.bind, pure, Except.pure, Int.toNat_of_nonneg h]
  · have hr : readHead (head 1 (-1 - n).toNat ++ rest) = .ok (.negative (-1 - n).toNat, rest) :=
      readHead_head (by omega) (by omega) rfl rest
    have hn : -1 - ((-1 - n).toNat : Int) = n := by omega
    simp only [readInt, hr, bind, Except.bind, pure, Except.pure, hn]

theorem textOfChunks_ofText (text : String) : textOfChunks [Bytes.ofText text] = .ok text := by
  simp [textOfChunks, Bytes.toText?_ofText, String.join]

theorem readText_writeText {text : String} {limit : Nat} (hl : (Bytes.ofText text).length < 2 ^ 64)
    (rest : Bytes) : readText (limit + 1) (writeText text ++ rest) = .ok (text, rest) := by
  have hh : untagged (limit + 1) (head 3 (Bytes.ofText text).length ++ (Bytes.ofText text ++ rest)) =
      .ok (.text (some (Bytes.ofText text).length), Bytes.ofText text ++ rest) :=
    untagged_head (by omega) hl rfl _
  simp only [readText, writeText, List.append_assoc, hh, bind, Except.bind, readString, take_append,
    pure, Except.pure, textOfChunks_ofText]

theorem readName_writeText {name : String} {limit : Nat} (hl : (Bytes.ofText name).length ≤ maxName)
    (rest : Bytes) :
    readName (limit + 1) (writeText name ++ rest) = .ok (Bytes.ofText name, rest) := by
  have hn : (Bytes.ofText name).length < 2 ^ 64 := hl.trans_lt (by decide)
  have hh : untagged (limit + 1) (head 3 (Bytes.ofText name).length ++ (Bytes.ofText name ++ rest)) =
      .ok (.text (some (Bytes.ofText name).length), Bytes.ofText name ++ rest) :=
    untagged_head (by omega) hn rfl _
  simp only [readName, writeText, List.append_assoc, hh, bind, Except.bind, Nat.not_lt.mpr hl,
    ↓reduceIte, take_append, pure, Except.pure, textOfChunks_ofText]

end Cbor

end BlockExchange
