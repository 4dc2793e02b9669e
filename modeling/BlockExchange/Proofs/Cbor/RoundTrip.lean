import BlockExchange.Proofs.Cbor.Items

namespace BlockExchange

open Cbor

def Fields.names {α σ : Type} : Fields α σ → List String
  | .nil => []
  | .cons name _ _ rest => name :: rest.names

def Cases.names {α : Type} : Cases α → List String
  | .nil => []
  | .bare name rest => name :: rest.names
  | .content name _ rest => name :: rest.names

def Cbor.areUsable (names : List String) : Bool :=
  decide names.Nodup && names.all (fun name => (Bytes.ofText name).length ≤ maxName) &&
    decide (names.length < 2 ^ 64)

mutual

def Shape.isWellNamed {α : Type} : Shape α → Bool
  | .bool | .number _ | .text | .octets => true
  | .optional s | .sequence s | .tuple _ s | .convert _ _ s => s.isWellNamed
  | .record fields | .closed fields => areUsable fields.names && fields.areWellNamed
  | .choice cases => areUsable cases.names && cases.areWellNamed

def Fields.areWellNamed {α σ : Type} : Fields α σ → Bool
  | .nil => true
  | .cons _ _ s rest => s.isWellNamed && rest.areWellNamed

def Cases.areWellNamed {α : Type} : Cases α → Bool
  | .nil => true
  | .bare _ rest => rest.areWellNamed
  | .content _ s rest => s.isWellNamed && rest.areWellNamed

end

mutual

def Shape.height {α : Type} : Shape α → Nat
  | .bool | .number _ | .text | .octets => 0
  | .optional s | .convert _ _ s => s.height
  | .sequence s | .tuple _ s => s.height + 1
  | .record fields | .closed fields => fields.height + 1
  | .choice cases => cases.height + 1

def Fields.height {α σ : Type} : Fields α σ → Nat
  | .nil => 0
  | .cons _ _ s rest => max s.height rest.height

def Cases.height {α : Type} : Cases α → Nat
  | .nil => 0
  | .bare _ rest => rest.height
  | .content _ s rest => max s.height rest.height

end

def Range.Fits {α : Type} (range : Range α) (a : α) : Prop :=
  range.ofInt? (range.toInt a) = some a ∧ -2 ^ 64 ≤ range.toInt a ∧ range.toInt a < 2 ^ 64

mutual

/-- A value that the notation can hold: numbers and lengths have a head. Optional values are written
in no message and no row, and are left out. -/
def Shape.Fits {α : Type} : Shape α → α → Prop
  | .bool, _ => True
  | .number range, a => range.Fits a
  | .text, text => (Bytes.ofText text).length < 2 ^ 64
  | .octets, bytes => bytes.length < 2 ^ 64
  | .optional _, _ => False
  | .sequence s, items => items.length < 2 ^ 64 ∧ ∀ a ∈ items, s.Fits a
  | .tuple n s, items => n < 2 ^ 64 ∧ ∀ a ∈ items.1, s.Fits a
  | .record fields, a => fields.Fits a
  | .closed fields, a => fields.Fits a
  | .choice cases, a => cases.Fits a
  | .convert read write s, a => read (write a) = some a ∧ s.Fits (write a)

def Fields.Fits {α σ : Type} : Fields α σ → α → Prop
  | .nil, () => True
  | .cons _ _ s rest, (a, others) => s.Fits a ∧ rest.Fits others

def Cases.Fits {α : Type} : Cases α → α → Prop
  | .nil, e => nomatch e
  | .bare _ _, .inl () => True
  | .bare _ rest, .inr b => rest.Fits b
  | .content _ s _, .inl a => s.Fits a
  | .content _ _ rest, .inr b => rest.Fits b

end

def Fields.filled {α σ : Type} : Fields α σ → α → σ
  | .nil, () => ()
  | .cons _ _ _ rest, (a, others) => (some a, rest.filled others)

theorem Fields.complete_filled {α σ : Type} :
    (fields : Fields α σ) → (a : α) → fields.complete (fields.filled a) = .ok a
  | .nil, () => rfl
  | .cons _ _ _ rest, (a, others) => by
    simp [Fields.complete, Fields.filled, rest.complete_filled others, Except.map]

theorem Fields.length_names {α σ : Type} :
    (fields : Fields α σ) → fields.names.length = fields.length
  | .nil => rfl
  | .cons _ _ _ rest => by simp [Fields.names, Fields.length, rest.length_names]

namespace Cbor

theorem areUsable_iff {names : List String} :
    areUsable names = true ↔ names.Nodup ∧ (∀ n ∈ names, (Bytes.ofText n).length ≤ maxName) ∧
      names.length < 2 ^ 64 := by
  simp only [areUsable, Bool.and_eq_true, decide_eq_true_eq, List.all_eq_true, and_assoc]

theorem iterate_collect {α : Type} {read : Reader α} {write : α → Bytes} {items : List α}
    (h : ∀ a ∈ items, ∀ rest, read (write a ++ rest) = .ok (a, rest)) (acc : List α) (rest : Bytes) :
    iterate (collect read) items.length acc (items.flatMap write ++ rest) =
      .ok (items.reverse ++ acc, rest) := by
  induction items generalizing acc with
  | nil => rfl
  | cons a items ih =>
    have hread := h a List.mem_cons_self (items.flatMap write ++ rest)
    have htail := ih (fun b hb => h b (List.mem_cons_of_mem _ hb)) (a :: acc)
    simp only [List.flatMap_cons, List.append_assoc, List.length_cons, iterate, collect, hread, bind,
      Except.bind, pure, Except.pure, List.reverse_cons, List.singleton_append]
    exact htail

theorem readOctets_append {bytes : Bytes} {limit depth : Nat} (hl : bytes.length < 2 ^ 64)
    (rest : Bytes) :
    readOctets (limit + 1) depth (head 2 bytes.length ++ bytes ++ rest) = .ok (bytes, rest) := by
  have hh : untagged (limit + 1) (head 2 bytes.length ++ (bytes ++ rest)) =
      .ok (.bytes (some bytes.length), bytes ++ rest) := untagged_head (by omega) hl rfl _
  simp [readOctets, hh, bind, Except.bind, readString, take_append, pure, Except.pure]

theorem readElements_append {α : Type} {s : Shape α} {read : (depth : Nat) → Reader α}
    {write : α → Bytes} {items : List α} {limit depth : Nat} (hl : items.length < 2 ^ 64)
    (h : ∀ a ∈ items, ∀ rest, read depth (write a ++ rest) = .ok (a, rest)) (rest : Bytes) :
    readElements s read (limit + 1) (depth + 1) (head 4 items.length ++ items.flatMap write ++ rest) =
      .ok (items, rest) := by
  have hh : untagged (limit + 1) (head 4 items.length ++ (items.flatMap write ++ rest)) =
      .ok (.array (some items.length), items.flatMap write ++ rest) := untagged_head (by omega) hl rfl _
  simp only [readElements, List.append_assoc, hh, bind, Except.bind, descend, iterateAll,
    iterate_collect h, pure, Except.pure, List.append_nil, List.reverse_reverse]

theorem readTuple_append {α : Type} {s : Shape α} {read : (depth : Nat) → Reader α}
    {write : α → Bytes} {items : List α} (limit : Nat) {depth : Nat} (hl : items.length < 2 ^ 64)
    (h : ∀ a ∈ items, ∀ rest, read depth (write a ++ rest) = .ok (a, rest)) (rest : Bytes) :
    readTuple s read (limit + 1) (depth + 1) items.length
      (head 4 items.length ++ items.flatMap write ++ rest) = .ok (items, rest) := by
  have hh : untagged (limit + 1) (head 4 items.length ++ (items.flatMap write ++ rest)) =
      .ok (.array (some items.length), items.flatMap write ++ rest) := untagged_head (by omega) hl rfl _
  simp [readTuple, hh, bind, Except.bind, descend, iterate_collect h, pure, Except.pure]

theorem readCase_writeText {name : String} {limit : Nat} (hl : (Bytes.ofText name).length ≤ maxName)
    (rest : Bytes) :
    readCase (limit + 1) (writeText name ++ rest) = .ok (Bytes.ofText name, rest) := by
  have hn : (Bytes.ofText name).length < 2 ^ 64 := hl.trans_lt (by decide)
  have hh : untagged (limit + 1) (writeText name ++ rest) =
      .ok (.text (some (Bytes.ofText name).length), Bytes.ofText name ++ rest) := by
    rw [writeText, List.append_assoc]
    exact untagged_head (by omega) hn rfl _
  simp only [readCase, hh, bind, Except.bind, readName_writeText hl]

theorem readCase_entry {name : String} {limit : Nat} (hl : (Bytes.ofText name).length ≤ maxName)
    (rest : Bytes) :
    readCase (limit + 1) (head 5 1 ++ (writeText name ++ rest)) = .ok (Bytes.ofText name, rest) := by
  have hh : untagged (limit + 1) (head 5 1 ++ (writeText name ++ rest)) =
      .ok (.map (some 1), writeText name ++ rest) := untagged_head (by omega) (by omega) rfl _
  simp only [readCase, hh, bind, Except.bind, readName_writeText hl]

end Cbor

theorem Fields.fill_cons_self {α β σ : Type} {limit depth : Nat} (name : String)
    (missing : Option α) {s : Shape α} (rest : Fields β σ) (met : σ) {a : α} {bytes tail : Bytes}
    (h : s.readCbor limit depth bytes = .ok (a, tail)) :
    ∃ read, (Fields.cons name missing s rest).fill limit depth (Bytes.ofText name) (none, met) =
      some read ∧ read bytes = .ok ((some a, met), tail) := by
  refine ⟨_, by simp only [Fields.fill, ↓reduceIte]; rfl, ?_⟩
  simp [h, bind, Except.bind, pure, Except.pure]

theorem Fields.fill_cons_of_ne {α β σ : Type} {limit depth : Nat} {name key : String}
    (missing : Option α) (s : Shape α) {rest : Fields β σ} (met : Option α) {others : σ}
    {read : Reader σ} (hne : key ≠ name)
    (h : rest.fill limit depth (Bytes.ofText key) others = some read) :
    ∃ read', (Fields.cons name missing s rest).fill limit depth (Bytes.ofText key) (met, others) =
      some read' ∧ ∀ bytes others' tail, read bytes = .ok (others', tail) →
        read' bytes = .ok ((met, others'), tail) := by
  have hkey : Bytes.ofText key ≠ Bytes.ofText name := fun e => hne (Bytes.ofText_injective e)
  refine ⟨_, by simp only [Fields.fill, hkey, ↓reduceIte, h, Option.map_some]; rfl, ?_⟩
  intro bytes others' tail hr
  simp only [hr, bind, Except.bind, pure, Except.pure]

def Fields.IsRead {α σ τ : Type} (fields : Fields α σ) (limit depth : Nat) (step : τ → Reader τ)
    (embed : σ → τ) : Prop :=
  ∀ key ∈ fields.names, ∀ {met read bytes}, fields.fill limit depth (Bytes.ofText key) met = some read →
    ∀ {met' tail}, read bytes = .ok (met', tail) →
      step (embed met) (writeText key ++ bytes) = .ok (embed met', tail)

theorem Fields.IsRead.tail {α β σ τ : Type} {limit depth : Nat} {name : String} {missing : Option α}
    {s : Shape α} {rest : Fields β σ} {step : τ → Reader τ} {embed : Option α × σ → τ}
    (h : (Fields.cons name missing s rest).IsRead limit depth step embed) (hn : name ∉ rest.names)
    (met : Option α) : rest.IsRead limit depth step (fun others => embed (met, others)) := by
  intro key hk others read bytes hfill others' tail hr
  have hne : key ≠ name := fun e => hn (e ▸ hk)
  obtain ⟨read', hfill', hread'⟩ := Fields.fill_cons_of_ne missing s met hne hfill
  exact h key (List.mem_cons_of_mem _ hk) hfill' (hread' _ _ _ hr)

theorem readEntries_append {α σ : Type} {fields : Fields α σ} {limit depth : Nat} {a : α}
    {rest : Bytes} (closed : Bool) (hu : areUsable fields.names = true)
    (h : ∀ step : σ → Reader σ, fields.IsRead (limit + 1) depth step id →
      iterate step fields.length fields.vacant (fields.toCbor a ++ rest) =
        .ok (fields.filled a, rest)) :
    readEntries (fields.fill (limit + 1)) closed (limit + 1) (depth + 1) fields.vacant
      (head 5 fields.length ++ fields.toCbor a ++ rest) = .ok (fields.filled a, rest) := by
  obtain ⟨_, hshort, hl⟩ := areUsable_iff.mp hu
  rw [fields.length_names] at hl
  have hh : untagged (limit + 1) (head 5 fields.length ++ (fields.toCbor a ++ rest)) =
      .ok (.map (some fields.length), fields.toCbor a ++ rest) := untagged_head (by omega) hl rfl _
  simp only [readEntries, List.append_assoc, hh, bind, Except.bind, descend, iterateAll]
  apply h
  intro key hk met read bytes hfill met' tail hr
  simp only [id, readName_writeText (hshort key hk), hfill, hr]

mutual

theorem Shape.readCbor_toCbor {α : Type} (limit : Nat) {depth : Nat} : (s : Shape α) → {a : α} →
    s.isWellNamed = true → s.Fits a → s.height ≤ depth → (rest : Bytes) →
    s.readCbor (limit + 1) depth (s.toCbor a ++ rest) = .ok (a, rest)
  | .bool, b, _, _, _, rest => by
    cases b <;> rfl
  | .number range, a, _, hf, _, rest => by
    obtain ⟨hr, hlow, hhigh⟩ := hf
    simp only [Shape.readCbor, Shape.toCbor, readInt_writeInt hlow hhigh, bind, Except.bind, hr,
      inRange, pure, Except.pure]
  | .text, text, _, hl, _, rest => readText_writeText hl rest
  | .octets, bytes, _, hl, _, rest => readOctets_append hl rest
  | .optional _, _, _, hf, _, _ => hf.elim
  | .sequence s, items, hw, hf, hd, rest => by
    obtain ⟨hl, hf⟩ := hf
    obtain ⟨inner, rfl⟩ := Nat.exists_eq_add_of_le' (Nat.one_le_of_lt hd)
    exact readElements_append hl
      (fun a ha tail => s.readCbor_toCbor limit hw (hf a ha) (Nat.le_of_succ_le_succ hd) tail) rest
  | .tuple n s, ⟨items, hn⟩, hw, hf, hd, rest => by
    obtain ⟨hl, hf⟩ := hf
    obtain ⟨inner, rfl⟩ := Nat.exists_eq_add_of_le' (Nat.one_le_of_lt hd)
    subst hn
    have hr := readTuple_append (s := s) limit hl (fun a ha tail =>
      s.readCbor_toCbor limit hw (hf a ha) (Nat.le_of_succ_le_succ hd) tail) rest
    simp only [Shape.readCbor, Shape.toCbor, hr, bind, Except.bind, ↓reduceDIte, pure, Except.pure]
  | .record fields, a, hw, hf, hd, rest => by
    obtain ⟨inner, rfl⟩ := Nat.exists_eq_add_of_le' (Nat.one_le_of_lt hd)
    have ⟨hu, hw⟩ := Bool.and_eq_true_iff.mp hw
    have hr := readEntries_append false hu fun step hs =>
      fields.iterate_toCbor limit hw (areUsable_iff.mp hu).1 hf (Nat.le_of_succ_le_succ hd) hs rest
    simp only [Shape.readCbor, Shape.toCbor, hr, bind, Except.bind, Cbor.complete,
      fields.complete_filled, pure, Except.pure]
  | .closed fields, a, hw, hf, hd, rest => by
    obtain ⟨inner, rfl⟩ := Nat.exists_eq_add_of_le' (Nat.one_le_of_lt hd)
    have ⟨hu, hw⟩ := Bool.and_eq_true_iff.mp hw
    have hr := readEntries_append true hu fun step hs =>
      fields.iterate_toCbor limit hw (areUsable_iff.mp hu).1 hf (Nat.le_of_succ_le_succ hd) hs rest
    simp only [Shape.readCbor, Shape.toCbor, hr, bind, Except.bind, Cbor.complete,
      fields.complete_filled, pure, Except.pure]
  | .choice cases, a, hw, hf, hd, rest => by
    obtain ⟨inner, rfl⟩ := Nat.exists_eq_add_of_le' (Nat.one_le_of_lt hd)
    have ⟨hu, hw⟩ := Bool.and_eq_true_iff.mp hw
    obtain ⟨hn, hshort, _⟩ := areUsable_iff.mp hu
    obtain ⟨name, _, tail, hc, hr⟩ :=
      cases.readCbor_toCbor limit hw hn hshort hf (Nat.le_of_succ_le_succ hd) rest
    simp only [Shape.readCbor, Shape.toCbor, hc, bind, Except.bind, descend, hr]
  | .convert read write s, a, hw, hf, hd, rest => by
    obtain ⟨hr, hf⟩ := hf
    simp only [Shape.readCbor, Shape.toCbor, s.readCbor_toCbor limit hw hf hd rest, bind,
      Except.bind, hr, inRange, pure, Except.pure]

theorem Fields.iterate_toCbor {α σ τ : Type} (limit : Nat) {depth : Nat} :
    (fields : Fields α σ) → {a : α} → fields.areWellNamed = true → fields.names.Nodup →
    fields.Fits a → fields.height ≤ depth →
    {step : τ → Reader τ} → {embed : σ → τ} → fields.IsRead (limit + 1) depth step embed →
    (rest : Bytes) →
    iterate step fields.length (embed fields.vacant) (fields.toCbor a ++ rest) =
      .ok (embed (fields.filled a), rest)
  | .nil, (), _, _, _, _, _, _, _, _ => rfl
  | .cons name missing s others, (a, b), hw, hn, hf, hd, step, embed, hs, rest => by
    obtain ⟨ha, hb⟩ := hf
    have ⟨hws, hwo⟩ := Bool.and_eq_true_iff.mp hw
    have ⟨hds, hdo⟩ := Nat.max_le.mp hd
    have ⟨hname, hn⟩ := List.nodup_cons.mp hn
    obtain ⟨read, hfill, hread⟩ := Fields.fill_cons_self name missing others others.vacant
      (s.readCbor_toCbor limit hws ha hds (others.toCbor b ++ rest))
    have hstep := hs name List.mem_cons_self hfill hread
    have hrest := others.iterate_toCbor limit hwo hn hb hdo (hs.tail hname (some a)) rest
    simp only [Fields.length, Fields.vacant, Fields.toCbor, List.append_assoc, iterate, hstep, bind,
      Except.bind, hrest, Fields.filled]

theorem Cases.readCbor_toCbor {α : Type} (limit : Nat) {depth : Nat} : (cases : Cases α) → {a : α} →
    cases.areWellNamed = true → cases.names.Nodup →
    (∀ name ∈ cases.names, (Bytes.ofText name).length ≤ maxName) → cases.Fits a →
    cases.height ≤ depth → (rest : Bytes) →
    ∃ name ∈ cases.names, ∃ tail,
      readCase (limit + 1) (cases.toCbor a ++ rest) = .ok (Bytes.ofText name, tail) ∧
        cases.readCbor (limit + 1) (Bytes.ofText name) depth tail = .ok (a, rest)
  | .nil, e, _, _, _, _, _, _ => nomatch e
  | .bare name others, .inl (), hw, hn, hshort, hf, hd, rest => by
    have hl := hshort name List.mem_cons_self
    refine ⟨name, List.mem_cons_self, rest, ?_, by simp [Cases.readCbor]⟩
    exact readCase_writeText hl rest
  | .bare name others, .inr b, hw, hn, hshort, hf, hd, rest => by
    have ⟨hname, hn⟩ := List.nodup_cons.mp hn
    obtain ⟨key, hk, tail, hc, hr⟩ := others.readCbor_toCbor limit hw hn
      (fun n h => hshort n (List.mem_cons_of_mem _ h)) hf hd rest
    have hne : Bytes.ofText key ≠ Bytes.ofText name := fun e => hname (Bytes.ofText_injective e ▸ hk)
    refine ⟨key, List.mem_cons_of_mem _ hk, tail, hc, ?_⟩
    simp only [Cases.readCbor, hne, ↓reduceIte, hr, bind, Except.bind, pure, Except.pure]
  | .content name s others, .inl a, hw, hn, hshort, hf, hd, rest => by
    have ⟨hws, _⟩ := Bool.and_eq_true_iff.mp hw
    have hl := hshort name List.mem_cons_self
    have hr := s.readCbor_toCbor limit hws hf (Nat.max_le.mp hd).1 rest
    refine ⟨name, List.mem_cons_self, s.toCbor a ++ rest, ?_, ?_⟩
    · simpa only [Cases.toCbor, List.append_assoc] using readCase_entry hl (s.toCbor a ++ rest)
    · simp only [Cases.readCbor, ↓reduceIte, hr, bind, Except.bind, pure, Except.pure]
  | .content name s others, .inr b, hw, hn, hshort, hf, hd, rest => by
    have ⟨hname, hn⟩ := List.nodup_cons.mp hn
    obtain ⟨key, hk, tail, hc, hr⟩ := others.readCbor_toCbor limit
      (Bool.and_eq_true_iff.mp hw).2 hn (fun n h => hshort n (List.mem_cons_of_mem _ h)) hf
      (Nat.max_le.mp hd).2 rest
    have hne : Bytes.ofText key ≠ Bytes.ofText name := fun e => hname (Bytes.ofText_injective e ▸ hk)
    refine ⟨key, List.mem_cons_of_mem _ hk, tail, hc, ?_⟩
    simp only [Cases.readCbor, hne, ↓reduceIte, hr, bind, Except.bind, pure, Except.pure]

end

theorem Shape.ofCbor_append {α : Type} {s : Shape α} {a : α} (hw : s.isWellNamed = true)
    (hf : s.Fits a) (hd : s.height ≤ maxDepth) (rest : Bytes) :
    s.ofCbor (s.toCbor a ++ rest) = .ok a := by
  simp only [Shape.ofCbor, s.readCbor_toCbor _ hw hf hd rest, bind, Except.bind, pure, Except.pure]

theorem Shape.ofCbor_toCbor {α : Type} {s : Shape α} {a : α} (hw : s.isWellNamed = true)
    (hf : s.Fits a) (hd : s.height ≤ maxDepth) : s.ofCbor (s.toCbor a) = .ok a := by
  simpa only [List.append_nil] using ofCbor_append hw hf hd []

end BlockExchange
