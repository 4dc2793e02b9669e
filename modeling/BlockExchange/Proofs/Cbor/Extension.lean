import BlockExchange.Proofs.Cbor.Items
import BlockExchange.Proofs.Traversal
/-!
A reader that has read an item reads it again when more bytes follow, and when its limit is greater
(`Cbor.Extends`). What readers are made of keeps to that, reader by reader.
-/

namespace BlockExchange

theorem Bytes.split?_append_of_eq_some {n : Nat} {bytes front rest : Bytes}
    (h : split? n bytes = some (front, rest)) (more : Bytes) :
    split? n (bytes ++ more) = some (front, rest ++ more) := by
  obtain ⟨rfl, rfl⟩ := append_of_split? h
  rw [List.append_assoc, split?_append]

namespace Cbor

variable {α β σ : Type}

/-- What one reader reads, the other one reads too, whatever follows. -/
def Extends (read read' : Reader α) : Prop :=
  ∀ bytes a rest, read bytes = .ok (a, rest) → ∀ more, read' (bytes ++ more) = .ok (a, rest ++ more)

theorem extends_pure (a : α) : Extends (fun rest => .ok (a, rest)) fun rest => .ok (a, rest) := by
  intro bytes a' rest h more
  cases h
  rfl

theorem extends_error (e : Error) (read' : Reader α) : Extends (fun _ => .error e) read' := by
  intro bytes a rest h
  cases h

theorem Extends.lookBack {read read' : Reader α} {f f' : Bytes → α × Bytes → Except Error (β × Bytes)}
    (h : Extends read read')
    (hf : ∀ a bytes rest b tail, f bytes (a, rest) = .ok (b, tail) →
      ∀ more, f' (bytes ++ more) (a, rest ++ more) = .ok (b, tail ++ more)) :
    Extends (fun bytes => read bytes >>= f bytes) fun bytes => read' bytes >>= f' bytes := by
  intro bytes b tail hb more
  obtain ⟨⟨a, rest⟩, hr, hfb⟩ := bind_eq_ok_iff.mp hb
  exact bind_eq_ok_iff.mpr ⟨_, h bytes a rest hr more, hf a bytes rest b tail hfb more⟩

theorem Extends.bind {read read' : Reader α} {f f' : α × Bytes → Except Error (β × Bytes)}
    (h : Extends read read')
    (hf : ∀ a, Extends (fun rest => f (a, rest)) fun rest => f' (a, rest)) :
    Extends (fun bytes => read bytes >>= f) fun bytes => read' bytes >>= f' :=
  h.lookBack fun a _ rest b tail hb => hf a rest b tail hb

def StartsWithHead (read : Reader α) : Prop :=
  ∀ bytes x, read bytes = .ok x → ∃ h, readHead bytes = .ok h

theorem StartsWithHead.bind {read : Reader α} (h : StartsWithHead read)
    (f : Bytes → α × Bytes → Except Error (β × Bytes)) :
    StartsWithHead fun bytes => read bytes >>= f bytes := by
  intro bytes x hx
  obtain ⟨y, hr, -⟩ := bind_eq_ok_iff.mp hx
  exact h bytes y hr

theorem startsWithHead_readHead : StartsWithHead readHead := fun _ x h => ⟨x, h⟩

theorem startsWithHead_untagged (limit : Nat) : StartsWithHead (untagged limit) := by
  cases limit with
  | zero =>
    intro bytes x h
    cases h
  | succ limit => exact startsWithHead_readHead.bind _

theorem extends_split (n : Nat) {read : Reader α} (f : Bytes → α)
    (hsome : ∀ bytes front rest, Bytes.split? n bytes = some (front, rest) →
      read bytes = .ok (f front, rest))
    (hnone : ∀ bytes, Bytes.split? n bytes = none → read bytes = .error .truncated) :
    Extends read read := by
  intro bytes a rest h more
  cases hs : Bytes.split? n bytes with
  | none =>
    rw [hnone bytes hs] at h
    cases h
  | some parts =>
    rw [hsome bytes _ _ hs] at h
    cases h
    exact hsome _ _ _ (Bytes.split?_append_of_eq_some hs more)

theorem extends_take (n : Nat) : Extends (take n) (take n) := by
  apply extends_split n id
  · intro bytes front rest h
    simp only [take, h, id]
  · intro bytes h
    simp only [take, h]

theorem extends_readArgument (low : Nat) : Extends (readArgument low) (readArgument low) := by
  unfold readArgument
  dsimp only
  split_ifs
  · exact extends_pure _
  iterate 4
    · apply extends_split _ fun front => some (Bytes.toNat front)
      · intro bytes front rest h
        rw [h]
      · intro bytes h
        rw [h]
  · exact extends_pure _
  · exact extends_error _ _

theorem extends_readHead : Extends readHead readHead := by
  intro bytes h rest hr more
  cases bytes with
  | nil => cases hr
  | cons first bytes =>
    have hcons : Extends (fun bytes => readHead (first :: bytes)) fun bytes => readHead (first :: bytes) := by
      unfold readHead
      apply (extends_readArgument _).bind
      intro argument
      dsimp only
      cases Head.ofParts (first.toNat / 32) (first.toNat % 32) argument with
      | error e => exact extends_error _ _
      | ok head => exact extends_pure _
    exact hcons bytes h rest hr more

theorem extends_untagged {limit limit' : Nat} (hl : limit ≤ limit') :
    Extends (untagged limit) (untagged limit') := by
  induction limit generalizing limit' with
  | zero => exact extends_error _ _
  | succ limit ih =>
    obtain ⟨limit', rfl⟩ := Nat.exists_eq_add_of_le' (Nat.one_le_of_lt hl)
    apply extends_readHead.bind
    intro h
    cases h with
    | tag n => exact ih (Nat.le_of_succ_le_succ hl)
    | _ => exact extends_pure _

theorem extends_check (checked : Except Error α) :
    Extends (fun rest => checked >>= fun a => .ok (a, rest))
      fun rest => checked >>= fun a => .ok (a, rest) := by
  cases checked with
  | error e => exact extends_error _ _
  | ok a => exact extends_pure a

theorem extends_readChunks (kind : StringKind) {limit limit' : Nat} (hl : limit ≤ limit')
    (nested : Nat) (acc : List Bytes) :
    Extends (readChunks kind limit nested acc) (readChunks kind limit' nested acc) := by
  induction limit generalizing limit' nested acc with
  | zero => exact extends_error _ _
  | succ limit ih =>
    obtain ⟨limit', rfl⟩ := Nat.exists_eq_add_of_le' (Nat.one_le_of_lt hl)
    have hrest := ih (Nat.le_of_succ_le_succ hl)
    apply extends_readHead.bind
    intro h
    dsimp only
    split_ifs
    · cases nested with
      | zero => exact extends_pure _
      | succ outer => exact hrest outer acc
    · cases kind.length? h with
      | none => exact extends_error _ _
      | some length =>
        cases length with
        | none => exact hrest _ acc
        | some n => exact (extends_take n).bind fun chunk => hrest nested (chunk :: acc)

theorem extends_readString (kind : StringKind) {limit limit' : Nat} (hl : limit ≤ limit')
    (length : Option Nat) :
    Extends (readString kind limit length) (readString kind limit' length) := by
  cases length with
  | none => exact extends_readChunks kind hl 0 []
  | some n => exact (extends_take n).bind fun chunk => extends_pure [chunk]

theorem extends_iterate {step step' : σ → Reader σ} (h : ∀ s, Extends (step s) (step' s)) (n : Nat)
    (s : σ) : Extends (iterate step n s) (iterate step' n s) := by
  induction n generalizing s with
  | zero => exact extends_pure s
  | succ n ih => exact (h s).bind ih

theorem extends_iterateOpen {step step' : σ → Reader σ} (h : ∀ s, Extends (step s) (step' s))
    (hh : ∀ s, StartsWithHead (step s)) {limit limit' : Nat} (hl : limit ≤ limit') (s : σ) :
    Extends (iterateOpen step limit s) (iterateOpen step' limit' s) := by
  induction limit generalizing limit' s with
  | zero => exact extends_error _ _
  | succ limit ih =>
    obtain ⟨limit', rfl⟩ := Nat.exists_eq_add_of_le' (Nat.one_le_of_lt hl)
    have hstep : Extends (fun bytes => step s bytes >>= fun x => iterateOpen step limit x.1 x.2)
        fun bytes => step' s bytes >>= fun x => iterateOpen step' limit' x.1 x.2 :=
      (h s).bind (ih (Nat.le_of_succ_le_succ hl))
    intro bytes s' rest hr more
    cases bytes with
    | nil =>
      cases hs : step s [] with
      | error e => simp [iterateOpen, hs, bind, Except.bind] at hr
      | ok x =>
        -- The end mark cannot be made up: no step succeeds on no bytes at all.
        obtain ⟨_, hnil⟩ := hh s [] x hs
        cases hnil
    | cons b bytes =>
      by_cases hb : b = 0xff
      · subst hb
        cases hr
        rfl
      · have hopen : ∀ (step : σ → Reader σ) limit s tail, iterateOpen step (limit + 1) s (b :: tail) =
            step s (b :: tail) >>= fun x => iterateOpen step limit x.1 x.2 := by
          intro step limit s tail
          simp only [iterateOpen]
          split
          next heq => exact absurd (List.cons.inj heq).1 hb
          next => rfl
        rw [hopen] at hr
        rw [List.cons_append, hopen]
        exact hstep _ _ _ hr more

theorem extends_iterateAll {step step' : σ → Reader σ} (h : ∀ s, Extends (step s) (step' s))
    (hh : ∀ s, StartsWithHead (step s)) {limit limit' : Nat} (hl : limit ≤ limit')
    (length : Option Nat) (s : σ) :
    Extends (iterateAll step limit length s) (iterateAll step' limit' length s) := by
  cases length with
  | none => exact extends_iterateOpen h hh hl s
  | some n => exact extends_iterate h n s

theorem extends_skipString (kind : StringKind) {limit limit' : Nat} (hl : limit ≤ limit')
    (length : Option Nat) :
    Extends (skipString kind limit length) (skipString kind limit' length) := by
  apply (extends_readString kind hl length).bind
  intro chunks
  dsimp only
  split_ifs
  · cases textOfChunks chunks with
    | error e => exact extends_error _ _
    | ok text => exact extends_pure ()
  · exact extends_pure ()

theorem bigNumber?_append_of_none {bytes rest : Bytes} {h : Head}
    (hr : readHead bytes = .ok (h, rest)) (hn : bigNumber? bytes = none) (more : Bytes) :
    bigNumber? (bytes ++ more) = none := by
  simp only [bigNumber?, hr] at hn
  simp only [bigNumber?, extends_readHead bytes h rest hr more]
  split at hn
  next n _ heq =>
    cases heq
    split_ifs at hn with hle
    exact if_neg hle
  next hne =>
    split
    next n _ heq =>
      cases heq
      exact absurd rfl (hne n rest)
    next => rfl

theorem bigNumber?_append_of_ok {bytes tail : Bytes} {value : Nat}
    (h : bigNumber? bytes = some (.ok (value, tail))) (more : Bytes) :
    bigNumber? (bytes ++ more) = some (.ok (value, tail ++ more)) := by
  unfold bigNumber? at h
  split at h
  next n rest hr =>
    split_ifs at h with hle
    cases ht : take n rest with
    | error e =>
      rw [ht] at h
      cases h
    | ok x =>
      rw [ht] at h
      cases h
      simp only [bigNumber?, extends_readHead _ _ _ hr more, if_pos hle,
        extends_take n rest _ _ ht more]
      rfl
  next => cases h

def skipNested (inner : Option (Reader Unit)) (read : Reader Unit → Reader Unit) (limit : Nat)
    (length : Option Nat) : Reader Unit := fun bytes =>
  match inner with
  | none => .error .tooDeep
  | some skip => iterateAll (fun _ => read skip) limit length () bytes

section

variable {inner inner' : Option (Reader Unit)} (h : Option.Rel Extends inner inner')
  (hh : ∀ skip ∈ inner, StartsWithHead skip) {limit limit' : Nat} (hl : limit ≤ limit')

include hh in
theorem startsWithHead_skipNested : StartsWithHead (skipNested inner id limit (some 1)) := by
  cases inner with
  | none =>
    intro bytes x hx
    cases hx
  | some skip => exact (hh skip rfl).bind _

include h hh hl

theorem extends_skipNested {read : Reader Unit → Reader Unit}
    (hread : ∀ skip skip', Extends skip skip' → Extends (read skip) (read skip'))
    (hstart : ∀ skip, StartsWithHead skip → StartsWithHead (read skip)) (length : Option Nat) :
    Extends (skipNested inner read limit length) (skipNested inner' read limit' length) := by
  cases h with
  | none => exact extends_error _ _
  | some h =>
    exact extends_iterateAll (fun _ => hread _ _ h) (fun _ => hstart _ (hh _ rfl)) hl length ()

theorem extends_skipItem : Extends (skipItem limit inner) (skipItem limit' inner') := by
  have hone : ∀ length, Extends (skipNested inner id limit length) (skipNested inner' id limit' length) :=
    extends_skipNested h hh hl (fun _ _ h => h) fun _ h => h
  apply extends_readHead.bind
  intro first
  dsimp only
  cases first with
  | positive n => exact extends_pure ()
  | negative n => exact extends_pure ()
  | float => exact extends_pure ()
  | stop => exact extends_error _ _
  | simple n =>
    dsimp only
    split_ifs
    · exact extends_pure ()
    · exact extends_error _ _
  | bytes length => exact extends_skipString .bytes hl length
  | text length => exact extends_skipString .text hl length
  | array length => exact hone length
  | map length =>
    apply extends_skipNested h hh hl
    · intro skip skip' hskip
      apply hskip.bind
      exact fun _ => hskip
    · exact fun skip hskip => hskip.bind _
  | tag n =>
    intro bytes x rest hx more
    dsimp only at hx ⊢
    by_cases hn : n = 2 ∨ n = 3
    · rw [if_pos hn] at hx ⊢
      cases hb : bigNumber? bytes with
      | none =>
        rw [hb] at hx
        obtain ⟨first, hr⟩ := startsWithHead_skipNested hh bytes _ hx
        rw [bigNumber?_append_of_none hr hb]
        exact hone (some 1) bytes x rest hx more
      | some number =>
        cases number with
        | error e =>
          rw [hb] at hx
          cases hx
        | ok number =>
          rw [hb] at hx
          rw [bigNumber?_append_of_ok hb]
          simp only [bind, Except.bind] at hx ⊢
          split_ifs at hx ⊢
          cases hx
          rfl
    · rw [if_neg hn] at hx ⊢
      exact hone (some 1) bytes x rest hx more

end

theorem startsWithHead_skip (limit depth : Nat) : StartsWithHead (skip limit depth) := by
  cases depth with
  | zero => exact startsWithHead_readHead.bind _
  | succ depth => exact startsWithHead_readHead.bind _

theorem extends_skip {limit limit' : Nat} (hl : limit ≤ limit') (depth : Nat) :
    Extends (skip limit depth) (skip limit' depth) := by
  induction depth with
  | zero => exact extends_skipItem .none nofun hl
  | succ depth ih =>
    apply extends_skipItem (.some ih) _ hl
    rintro _ ⟨⟩
    exact startsWithHead_skip limit depth

theorem extends_readBig {limit limit' : Nat} (hl : limit ≤ limit') :
    Extends (readBig limit) (readBig limit') := by
  apply extends_readHead.bind
  intro h
  cases h with
  | bytes length =>
    apply (extends_readString .bytes hl length).bind
    intro chunks
    dsimp only
    split_ifs
    · exact extends_pure _
    · exact extends_error _ _
  | _ => exact extends_error _ _

theorem extends_readInt {limit limit' : Nat} (hl : limit ≤ limit') :
    Extends (readInt limit) (readInt limit') := by
  induction limit generalizing limit' with
  | zero => exact extends_error _ _
  | succ limit ih =>
    obtain ⟨limit', rfl⟩ := Nat.exists_eq_add_of_le' (Nat.one_le_of_lt hl)
    have hl := Nat.le_of_succ_le_succ hl
    apply extends_readHead.bind
    intro h
    cases h with
    | positive n => exact extends_pure _
    | negative n => exact extends_pure _
    | tag n =>
      rcases n with _ | _ | _ | _ | n
      · exact ih hl
      · exact ih hl
      · exact (extends_readBig hl).bind fun n => extends_pure (n : Int)
      · exact (extends_readBig hl).bind fun n => extends_pure (-1 - (n : Int))
      · exact ih hl
    | _ => exact extends_error _ _

theorem startsWithHead_readInt (limit : Nat) : StartsWithHead (readInt limit) := by
  cases limit with
  | zero =>
    intro bytes x h
    cases h
  | succ limit => exact startsWithHead_readHead.bind _

theorem extends_readBool {limit limit' : Nat} (hl : limit ≤ limit') :
    Extends (readBool limit) (readBool limit') := by
  apply (extends_untagged hl).bind
  intro h
  dsimp only
  split
  · exact extends_pure false
  · exact extends_pure true
  · exact extends_error _ _

theorem extends_readText {limit limit' : Nat} (hl : limit ≤ limit') :
    Extends (readText limit) (readText limit') := by
  apply (extends_untagged hl).bind
  intro h
  cases h with
  | text length =>
    apply (extends_readString .text hl length).bind
    exact fun chunks => extends_check (textOfChunks chunks)
  | _ => exact extends_error _ _

theorem extends_readName {limit limit' : Nat} (hl : limit ≤ limit') :
    Extends (readName limit) (readName limit') := by
  apply (extends_untagged hl).bind
  intro h
  cases h with
  | text length =>
    cases length with
    | none => exact extends_error _ _
    | some n =>
      dsimp only
      split_ifs
      · exact extends_error _ _
      · apply (extends_take n).bind
        intro name
        dsimp only
        cases textOfChunks [name] with
        | error e => exact extends_error _ _
        | ok text => exact extends_pure name
  | bytes length =>
    cases length with
    | none => exact extends_error _ _
    | some n =>
      dsimp only
      split_ifs
      · exact extends_error _ _
      · exact extends_take n
  | _ => exact extends_error _ _

theorem extends_descend {f f' : Nat → Reader α} (h : ∀ depth, Extends (f depth) (f' depth))
    (depth : Nat) :
    Extends (fun bytes => descend depth fun depth => f depth bytes)
      fun bytes => descend depth fun depth => f' depth bytes := by
  cases depth with
  | zero => exact extends_error _ _
  | succ depth => exact h depth

theorem Extends.collect {read read' : Reader α} (h : Extends read read') (acc : List α) :
    Extends (collect read acc) (collect read' acc) :=
  h.bind fun a => extends_pure (a :: acc)

theorem StartsWithHead.collect {read : Reader α} (h : StartsWithHead read) (acc : List α) :
    StartsWithHead (collect read acc) :=
  h.bind _

theorem extends_items {read read' : Reader α} (h : Extends read read') (hh : StartsWithHead read)
    {limit limit' : Nat} (hl : limit ≤ limit') (length : Option Nat) :
    Extends
      (fun bytes => iterateAll (Cbor.collect read) limit length [] bytes >>= fun x =>
        .ok (x.1.reverse, x.2))
      fun bytes => iterateAll (Cbor.collect read') limit' length [] bytes >>= fun x =>
        .ok (x.1.reverse, x.2) :=
  (extends_iterateAll h.collect hh.collect hl length []).bind fun items => extends_pure items.reverse

theorem extends_readOctets {limit limit' : Nat} (hl : limit ≤ limit') (depth : Nat) :
    Extends (readOctets limit depth) (readOctets limit' depth) := by
  apply (extends_untagged hl).bind
  intro h
  cases h with
  | bytes length =>
    exact (extends_readString .bytes hl length).bind fun chunks => extends_pure chunks.flatten
  | array length =>
    have helement : Extends
        (fun bytes => readInt limit bytes >>= fun x =>
          inRange (Range.uint8.ofInt? x.1) >>= fun b => .ok (b, x.2))
        fun bytes => readInt limit' bytes >>= fun x =>
          inRange (Range.uint8.ofInt? x.1) >>= fun b => .ok (b, x.2) :=
      (extends_readInt hl).bind fun n => extends_check (inRange (Range.uint8.ofInt? n))
    have hstart := (startsWithHead_readInt limit).bind fun _ x =>
      inRange (Range.uint8.ofInt? x.1) >>= fun b => .ok (b, x.2)
    exact extends_descend (fun _ => extends_items helement hstart hl length) depth
  | _ => exact extends_error _ _

theorem extends_readElements {s : Shape α} {read read' : (depth : Nat) → Reader α}
    (h : ∀ depth, Extends (read depth) (read' depth)) (hh : ∀ depth, StartsWithHead (read depth))
    {limit limit' : Nat} (hl : limit ≤ limit') (depth : Nat) :
    Extends (readElements s read limit depth) (readElements s read' limit' depth) := by
  apply (extends_untagged hl).bind
  intro first
  cases first with
  | array length =>
    exact extends_descend (fun depth => extends_items (h depth) (hh depth) hl length) depth
  | bytes length =>
    apply (extends_readString .bytes hl length).bind
    exact fun chunks => extends_check (inRange (chunks.flatten.mapM s.ofByte?))
  | _ => exact extends_error _ _

theorem extends_readTuple {s : Shape α} {read read' : (depth : Nat) → Reader α}
    (h : ∀ depth, Extends (read depth) (read' depth)) {limit limit' : Nat} (hl : limit ≤ limit')
    (depth n : Nat) : Extends (readTuple s read limit depth n) (readTuple s read' limit' depth n) := by
  apply (extends_untagged hl).bind
  intro first
  cases first with
  | array length =>
    dsimp only
    split_ifs
    · exact extends_error _ _
    · refine extends_descend (fun depth => ?_) depth
      apply (extends_iterate (h depth).collect n []).bind
      exact fun items => extends_pure items.reverse
  | bytes length =>
    apply (extends_readString .bytes hl length).bind
    exact fun chunks => extends_check (inRange ((chunks.flatten.take n).mapM s.ofByte?))
  | _ => exact extends_error _ _

theorem startsWithHead_readName (limit : Nat) : StartsWithHead (readName limit) :=
  (startsWithHead_untagged limit).bind _

theorem extends_readEntries {fill fill' : (depth : Nat) → Bytes → σ → Option (Reader σ)}
    (h : ∀ depth name met, Option.Rel Extends (fill depth name met) (fill' depth name met))
    (closed : Bool) {limit limit' : Nat} (hl : limit ≤ limit') (depth : Nat) (start : σ) :
    Extends (readEntries fill closed limit depth start) (readEntries fill' closed limit' depth start) := by
  apply (extends_untagged hl).bind
  intro first
  cases first with
  | map length =>
    refine extends_descend (fun depth => ?_) depth
    apply extends_iterateAll _ _ hl
    · intro met
      apply (extends_readName hl).bind
      intro name
      have hfill := h depth name met
      dsimp only
      generalize fill depth name met = read, fill' depth name met = read' at hfill ⊢
      cases hfill with
      | some hread => exact hread
      | none =>
        dsimp only
        split_ifs
        · exact extends_error _ _
        · exact (extends_skip hl depth).bind fun _ => extends_pure met
    · exact fun met => (startsWithHead_readName limit).bind _
  | _ => exact extends_error _ _

theorem extends_readCase {limit limit' : Nat} (hl : limit ≤ limit') :
    Extends (readCase limit) (readCase limit') := by
  -- A bare name is looked at twice, the second time from where the first look began.
  apply (extends_untagged hl).lookBack
  intro first bytes rest name tail hr more
  dsimp only at hr ⊢
  split at hr
  · exact extends_readName hl _ _ _ hr more
  · exact extends_readName hl _ _ _ hr more
  · cases hr

theorem extends_readOptional {read read' : Reader α} (h : Extends read read') :
    Extends (readOptional read) (readOptional read') := by
  apply extends_readHead.lookBack
  intro first bytes rest a tail hr more
  have hsome : Extends (fun bytes => read bytes >>= fun x => .ok (some x.1, x.2))
      fun bytes => read' bytes >>= fun x => .ok (some x.1, x.2) :=
    h.bind fun a => extends_pure (some a)
  dsimp only at hr ⊢
  split at hr
  · cases hr
    rfl
  · cases hr
    rfl
  · exact hsome bytes a tail hr more

end Cbor

end BlockExchange
