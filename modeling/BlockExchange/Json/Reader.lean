import BlockExchange.Json.Token
import BlockExchange.Shape
/-!
Reading values from JSON. Records may also be written as arrays of their fields in order, where
fields at the end that have a default may be left out; unknown fields are skipped.

A `limit` bounds the tokens that are read; their number is always enough.
-/

namespace BlockExchange

namespace Json

abbrev Reader (α : Type) := List Token → Option (α × List Token)

inductive Container where
  | array
  | object
  deriving DecidableEq

def skipInside : (limit : Nat) → (behind : Bool) → List Container → Reader Unit
  | 0, _, _, _ => none
  | _ + 1, true, [], rest => some ((), rest)
  | limit + 1, true, .array :: outer, rest =>
    match rest with
    | .comma :: rest => skipInside limit false (.array :: outer) rest
    | .endArray :: rest => skipInside limit true outer rest
    | _ => none
  | limit + 1, true, .object :: outer, rest =>
    match rest with
    | .comma :: .string name :: .colon :: rest =>
      if isSkippable name then skipInside limit false (.object :: outer) rest else none
    | .endObject :: rest => skipInside limit true outer rest
    | _ => none
  | limit + 1, false, outer, rest =>
    match rest with
    | .null :: rest | .bool _ :: rest | .integer _ :: rest | .decimal :: rest =>
      skipInside limit true outer rest
    | .string pieces :: rest => if isSkippable pieces then skipInside limit true outer rest else none
    | .beginArray :: .endArray :: rest | .beginObject :: .endObject :: rest =>
      skipInside limit true outer rest
    | .beginArray :: rest => skipInside limit false (.array :: outer) rest
    | .beginObject :: .string name :: .colon :: rest =>
      if isSkippable name then skipInside limit false (.object :: outer) rest else none
    | _ => none

def skip (limit : Nat) : Reader Unit :=
  skipInside (2 * limit + 2) false []

def readMore {α : Type} (item : Reader α) : (limit : Nat) → (acc : List α) → Reader (List α)
  | 0, _, _ => none
  | limit + 1, acc, rest =>
    match rest with
    | .endArray :: rest => some (acc.reverse, rest)
    | .comma :: rest => do
      let (a, rest) ← item rest
      readMore item limit (a :: acc) rest
    | _ => none

def readElements {α : Type} (item : Reader α) (limit : Nat) : Reader (List α)
  | .beginArray :: .endArray :: rest => some ([], rest)
  | .beginArray :: rest => do
    let (a, rest) ← item rest
    readMore item limit [a] rest
  | _ => none

def readEntry {σ : Type} (fill : String → σ → Option (Reader σ)) (closed : Bool) (limit : Nat)
    (met : σ) : Reader σ
  | .string name :: .colon :: rest => do
    match fill (← text? [] name) met with
    | some read => read rest
    | none =>
      if closed then none
      let (_, rest) ← skip limit rest
      return (met, rest)
  | _ => none

def readEntries {σ : Type} (entry : σ → Reader σ) : (limit : Nat) → σ → Reader σ
  | 0, _, _ => none
  | limit + 1, met, rest =>
    match rest with
    | .endObject :: rest => some (met, rest)
    | .comma :: rest => do
      let (met, rest) ← entry met rest
      readEntries entry limit met rest
    | _ => none

def readFields {σ : Type} (entry : σ → Reader σ) (limit : Nat) (met : σ) : Reader σ
  | .endObject :: rest => some (met, rest)
  | rest => do
    let (met, rest) ← entry met rest
    readEntries entry limit met rest

def readRecord {α σ : Type} (fields : Fields α σ) (fill : String → σ → Option (Reader σ))
    (inOrder : (first : Bool) → Reader α) (closed : Bool) (limit : Nat) : Reader α
  | .beginObject :: rest => do
    let (met, rest) ← readFields (readEntry fill closed limit) limit fields.vacant rest
    match fields.complete met with
    | .ok a => some (a, rest)
    | .error _ => none
  | .beginArray :: rest => do
    let (a, rest) ← inOrder true rest
    match rest with
    | .endArray :: rest => some (a, rest)
    | _ => none
  | _ => none

end Json

open Json

mutual

def Shape.readJson {α : Type} (limit : Nat) : Shape α → Reader α
  | .bool => fun
    | .bool b :: rest => some (b, rest)
    | _ => none
  | .number range => fun
    | .integer n :: rest => (range.ofInt? n).map (·, rest)
    | _ => none
  | .text => fun
    | .string pieces :: rest => (text? [] pieces).map (·, rest)
    | _ => none
  | .octets => fun
    | .string pieces :: rest => some (octets pieces, rest)
    | tokens =>
      readElements (fun
        | .integer n :: rest => (Range.uint8.ofInt? n).map (·, rest)
        | _ => none) limit tokens
  | .optional s => fun
    | .null :: rest => some (none, rest)
    | tokens => (s.readJson limit tokens).map fun (a, rest) => (some a, rest)
  | .sequence s => readElements (s.readJson limit) limit
  | .tuple n s => fun tokens => do
    let (items, rest) ← readElements (s.readJson limit) limit tokens
    if h : items.length = n then some (⟨items, h⟩, rest) else none
  | .record fields => readRecord fields (fields.fillJson limit) (fields.readInOrder limit) false limit
  | .closed fields => readRecord fields (fields.fillJson limit) (fields.readInOrder limit) true limit
  | .choice cases => fun
    | .string name :: rest => do
      let a ← cases.bare? (← text? [] name)
      some (a, rest)
    | .beginObject :: .string name :: .colon :: rest => do
      let (a, rest) ← cases.readJson limit (← text? [] name) rest
      match rest with
      | .endObject :: rest => some (a, rest)
      | _ => none
    | _ => none
  | .convert read _ s => fun tokens => do
    let (b, rest) ← s.readJson limit tokens
    let a ← read b
    some (a, rest)

def Fields.fillJson {α σ : Type} (limit : Nat) : Fields α σ → String → σ → Option (Reader σ)
  | .nil, _, _ => none
  | .cons name _ s rest, key, (met, others) =>
    if key = name then
      some fun tokens => do
        if met.isSome then none
        let (a, rest) ← s.readJson limit tokens
        some ((some a, others), rest)
    else
      (rest.fillJson limit key others).map fun read tokens =>
        (read tokens).map fun (others, rest) => ((met, others), rest)

def Fields.readInOrder {α σ : Type} (limit : Nat) : Fields α σ → (first : Bool) → Reader α
  | .nil, _ => fun tokens => some ((), tokens)
  | .cons _ missing s rest, first => fun tokens => do
    match tokens with
    | .endArray :: _ =>
      let a ← missing
      let (others, tokens) ← rest.readInOrder limit first tokens
      some ((a, others), tokens)
    | _ =>
      let tokens ← match first, tokens with
        | true, tokens => some tokens
        | false, .comma :: tokens => some tokens
        | false, _ => none
      let (a, tokens) ← s.readJson limit tokens
      let (others, tokens) ← rest.readInOrder limit false tokens
      some ((a, others), tokens)

def Cases.bare? {α : Type} : Cases α → String → Option α
  | .nil, _ => none
  | .bare name rest, key => if key = name then some (.inl ()) else (rest.bare? key).map .inr
  | .content name _ rest, key => if key = name then none else (rest.bare? key).map .inr

def Cases.readJson {α : Type} (limit : Nat) : Cases α → String → Reader α
  | .nil, _ => fun _ => none
  | .bare name rest, key => fun tokens =>
    if key = name then
      match tokens with
      | .null :: tokens => some (.inl (), tokens)
      | _ => none
    else (rest.readJson limit key tokens).map fun (b, tokens) => (.inr b, tokens)
  | .content name s rest, key => fun tokens =>
    if key = name then (s.readJson limit tokens).map fun (a, tokens) => (.inl a, tokens)
    else (rest.readJson limit key tokens).map fun (b, tokens) => (.inr b, tokens)

end

def Shape.ofJson? {α : Type} (s : Shape α) (text : String) : Option α := do
  let tokens ← tokens? text
  match ← s.readJson tokens.length tokens with
  | (a, []) => some a
  | _ => none

end BlockExchange
