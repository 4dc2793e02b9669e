import BlockExchange.Proofs.Cbor.Extension
import BlockExchange.Proofs.Cbor.RoundTrip

namespace BlockExchange

open Cbor

theorem Shape.startsWithHead_readCbor {α : Type} (limit : Nat) :
    (s : Shape α) → (depth : Nat) → StartsWithHead (s.readCbor limit depth)
  | .bool, _ => (startsWithHead_untagged limit).bind _
  | .number _, _ => (startsWithHead_readInt limit).bind _
  | .text, _ => (startsWithHead_untagged limit).bind _
  | .octets, _ => (startsWithHead_untagged limit).bind _
  | .optional _, _ => startsWithHead_readHead.bind _
  | .sequence _, _ => (startsWithHead_untagged limit).bind _
  | .tuple _ _, _ => ((startsWithHead_untagged limit).bind _).bind _
  | .record _, _ => ((startsWithHead_untagged limit).bind _).bind _
  | .closed _, _ => ((startsWithHead_untagged limit).bind _).bind _
  | .choice _, _ => ((startsWithHead_untagged limit).bind _).bind _
  | .convert _ _ s, depth => (s.startsWithHead_readCbor limit depth).bind _

section

variable {limit limit' : Nat}

mutual

theorem Shape.extends_readCbor {α : Type} (hl : limit ≤ limit') :
    (s : Shape α) → (depth : Nat) → Extends (s.readCbor limit depth) (s.readCbor limit' depth)
  | .bool, _ => extends_readBool hl
  | .number range, _ => (extends_readInt hl).bind fun n => extends_check (inRange (range.ofInt? n))
  | .text, _ => extends_readText hl
  | .octets, depth => extends_readOctets hl depth
  | .optional s, depth => extends_readOptional (s.extends_readCbor hl depth)
  | .sequence s, depth =>
    extends_readElements (s.extends_readCbor hl) (s.startsWithHead_readCbor limit) hl depth
  | .tuple n s, depth => by
    apply (extends_readTuple (s.extends_readCbor hl) hl depth n).bind
    intro items
    dsimp only
    split_ifs
    · exact extends_pure _
    · exact extends_error _ _
  | .record fields, depth =>
    (extends_readEntries (fields.extends_fill hl) false hl depth fields.vacant).bind fun met =>
      extends_check (complete fields met)
  | .closed fields, depth =>
    (extends_readEntries (fields.extends_fill hl) true hl depth fields.vacant).bind fun met =>
      extends_check (complete fields met)
  | .choice cases, depth =>
    (extends_readCase hl).bind fun name => extends_descend (cases.extends_readCbor hl name) depth
  | .convert read _ s, depth =>
    (s.extends_readCbor hl depth).bind fun b => extends_check (inRange (read b))

theorem Fields.extends_fill {α σ : Type} (hl : limit ≤ limit') :
    (fields : Fields α σ) → (depth : Nat) → (key : Bytes) → (met : σ) →
      Option.Rel Extends (fields.fill limit depth key met) (fields.fill limit' depth key met)
  | .nil, _, _, _ => .none
  | .cons name missing s rest, depth, key, (met, others) => by
    have hfield := s.extends_readCbor hl depth
    have hrest := rest.extends_fill hl depth key others
    simp only [Fields.fill]
    split_ifs
    · exact .some (extends_error _ _)
    · apply Option.Rel.some
      apply hfield.bind
      exact fun a => extends_pure (some a, others)
    · generalize rest.fill limit depth key others = read,
        rest.fill limit' depth key others = read' at hrest ⊢
      cases hrest with
      | none => exact .none
      | some hread =>
        apply Option.Rel.some
        apply hread.bind
        exact fun others => extends_pure (met, others)

theorem Cases.extends_readCbor {α : Type} (hl : limit ≤ limit') :
    (cases : Cases α) → (name : Bytes) → (depth : Nat) →
      Extends (cases.readCbor limit name depth) (cases.readCbor limit' name depth)
  | .nil, _, _ => extends_error _ _
  | .bare name rest, key, depth => by
    simp only [Cases.readCbor]
    split_ifs
    · exact extends_pure _
    · exact (rest.extends_readCbor hl key depth).bind fun b => extends_pure (Sum.inr b)
  | .content name s rest, key, depth => by
    simp only [Cases.readCbor]
    split_ifs
    · exact (s.extends_readCbor hl depth).bind fun a => extends_pure (Sum.inl a)
    · exact (rest.extends_readCbor hl key depth).bind fun b => extends_pure (Sum.inr b)

end

end

theorem Shape.ofCbor_of_append {α : Type} {s : Shape α} {a : α} (hw : s.isWellNamed = true)
    (hf : s.Fits a) (hd : s.height ≤ maxDepth) {front back : Bytes}
    (h : front ++ back = s.toCbor a) (hb : back ≠ []) : ∃ e, s.ofCbor front = .error e := by
  unfold ofCbor
  cases hr : s.readCbor (front.length + 1) maxDepth front with
  | error e => exact ⟨e, rfl⟩
  | ok x =>
    obtain ⟨b, rest⟩ := x
    have hle : front.length + 1 ≤ (front ++ back).length + 1 := by
      rw [List.length_append]
      omega
    have hall := s.extends_readCbor hle maxDepth front b rest hr back
    have hread := s.readCbor_toCbor (front ++ back).length hw hf hd []
    rw [List.append_nil, ← h, hall] at hread
    obtain ⟨-, hrest⟩ := Prod.mk.inj (Except.ok.inj hread)
    exact absurd (List.append_eq_nil_iff.mp hrest).2 hb

end BlockExchange
