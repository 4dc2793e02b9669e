import BlockExchange.Cbor.Skip
import BlockExchange.Shape
/-!
Reading values from CBOR. Any width of head, indefinite lengths and tags are understood; fields may
come in any order, and unknown ones are skipped. A value is read from the front: what follows it is
left alone.
-/

namespace BlockExchange

namespace Cbor

def readBig (limit : Nat) : Reader Nat := fun bytes => do
  let (h, rest) ← readHead bytes
  match h with
  | .bytes length =>
    let (chunks, rest) ← readString .bytes limit length rest
    let digits := chunks.flatten.dropWhile (· = 0)
    if digits.length ≤ 16 then return (Bytes.toNat digits, rest) else .error .outOfRange
  | _ => .error (.unexpected "bytes")

def readInt : (limit : Nat) → Reader Int
  | 0, _ => .error .truncated
  | limit + 1, bytes => do
    let (h, rest) ← readHead bytes
    match h with
    | .positive n => return (n, rest)
    | .negative n => return (-1 - n, rest)
    | .tag 2 =>
      let (n, rest) ← readBig limit rest
      return (n, rest)
    | .tag 3 =>
      let (n, rest) ← readBig limit rest
      return (-1 - n, rest)
    | .tag _ => readInt limit rest
    | _ => .error (.unexpected "integer")

def readBool (limit : Nat) : Reader Bool := fun bytes => do
  let (h, rest) ← untagged limit bytes
  match h with
  | .simple 20 => return (false, rest)
  | .simple 21 => return (true, rest)
  | _ => .error (.unexpected "truth value")

def readText (limit : Nat) : Reader String := fun bytes => do
  let (h, rest) ← untagged limit bytes
  match h with
  | .text length =>
    let (chunks, rest) ← readString .text limit length rest
    return (← textOfChunks chunks, rest)
  | _ => .error (.unexpected "text")

def readName (limit : Nat) : Reader Bytes := fun bytes => do
  let (h, rest) ← untagged limit bytes
  match h with
  | .text (some n) =>
    if maxName < n then .error (.unexpected "name")
    let (name, rest) ← take n rest
    let _ ← textOfChunks [name]
    return (name, rest)
  | .bytes (some n) => if maxName < n then .error (.unexpected "name") else take n rest
  | _ => .error (.unexpected "name")

def inRange {α : Type} : Option α → Except Error α
  | some a => .ok a
  | none => .error .outOfRange

def descend {α : Type} (depth : Nat) (read : (depth : Nat) → Except Error α) : Except Error α :=
  match depth with
  | 0 => .error .tooDeep
  | inner + 1 => read inner

def collect {α : Type} (read : Reader α) (acc : List α) : Reader (List α) := fun bytes => do
  let (a, rest) ← read bytes
  return (a :: acc, rest)

def readOctets (limit depth : Nat) : Reader Bytes := fun bytes => do
  let (h, rest) ← untagged limit bytes
  match h with
  | .bytes length =>
    let (chunks, rest) ← readString .bytes limit length rest
    return (chunks.flatten, rest)
  | .array length =>
    descend depth fun _ => do
      let element : Reader UInt8 := fun bytes => do
        let (n, rest) ← readInt limit bytes
        return (← inRange (Range.uint8.ofInt? n), rest)
      let (bytes, rest) ← iterateAll (collect element) limit length [] rest
      return (bytes.reverse, rest)
  | _ => .error (.unexpected "bytes")

def readElements {α : Type} (s : Shape α) (read : (depth : Nat) → Reader α) (limit depth : Nat) :
    Reader (List α) := fun bytes => do
  let (h, rest) ← untagged limit bytes
  match h with
  | .array length =>
    descend depth fun depth => do
      let (items, rest) ← iterateAll (collect (read depth)) limit length [] rest
      return (items.reverse, rest)
  | .bytes length =>
    let (chunks, rest) ← readString .bytes limit length rest
    return (← inRange (chunks.flatten.mapM s.ofByte?), rest)
  | _ => .error (.unexpected "array")

def readTuple {α : Type} (s : Shape α) (read : (depth : Nat) → Reader α) (limit depth n : Nat) :
    Reader (List α) := fun bytes => do
  let (h, rest) ← untagged limit bytes
  match h with
  | .array length =>
    if length.any (· < n) then .error (.unexpected "longer array")
    descend depth fun depth => do
      let (items, rest) ← iterate (collect (read depth)) n [] rest
      return (items.reverse, rest)
  | .bytes length =>
    let (chunks, rest) ← readString .bytes limit length rest
    return (← inRange ((chunks.flatten.take n).mapM s.ofByte?), rest)
  | _ => .error (.unexpected "array")

def readEntries {σ : Type} (fill : (depth : Nat) → Bytes → σ → Option (Reader σ)) (closed : Bool)
    (limit depth : Nat) (start : σ) : Reader σ := fun bytes => do
  let (h, rest) ← untagged limit bytes
  match h with
  | .map length =>
    descend depth fun depth => do
      let entry (met : σ) : Reader σ := fun bytes => do
        let (name, rest) ← readName limit bytes
        match fill depth name met with
        | some read => read rest
        | none =>
          if closed then .error .unknownCase
          let (_, rest) ← skip limit depth rest
          return (met, rest)
      iterateAll entry limit length start rest
  | _ => .error (.unexpected "map")

def readCase (limit : Nat) : Reader Bytes := fun bytes => do
  let (h, rest) ← untagged limit bytes
  match h with
  | .map (some 1) => readName limit rest
  | .text _ => readName limit bytes
  | _ => .error (.unexpected "alternative")

def readOptional {α : Type} (read : Reader α) : Reader (Option α) := fun bytes => do
  let (h, rest) ← readHead bytes
  match h with
  | .simple 22 | .simple 23 => return (none, rest)
  | _ =>
    let (a, rest) ← read bytes
    return (some a, rest)

def complete {α σ : Type} (fields : Fields α σ) (met : σ) : Except Error α :=
  match fields.complete met with
  | .ok a => .ok a
  | .error name => .error (.missing name)

end Cbor

open Cbor

mutual

def Shape.readCbor {α : Type} (limit : Nat) : (s : Shape α) → (depth : Nat) → Reader α
  | .bool, _ => readBool limit
  | .number range, _ => fun bytes => do
    let (n, rest) ← readInt limit bytes
    return (← inRange (range.ofInt? n), rest)
  | .text, _ => readText limit
  | .octets, depth => readOctets limit depth
  | .optional s, depth => readOptional (s.readCbor limit depth)
  | .sequence s, depth => readElements s (s.readCbor limit) limit depth
  | .tuple n s, depth => fun bytes => do
    let (items, rest) ← readTuple s (s.readCbor limit) limit depth n bytes
    if h : items.length = n then return (⟨items, h⟩, rest) else .error (.unexpected "longer array")
  | .record fields, depth => fun bytes => do
    let (met, rest) ← readEntries (fields.fill limit) false limit depth fields.vacant bytes
    return (← complete fields met, rest)
  | .closed fields, depth => fun bytes => do
    let (met, rest) ← readEntries (fields.fill limit) true limit depth fields.vacant bytes
    return (← complete fields met, rest)
  | .choice cases, depth => fun bytes => do
    let (name, rest) ← readCase limit bytes
    descend depth fun depth => cases.readCbor limit name depth rest
  | .convert read _ s, depth => fun bytes => do
    let (b, rest) ← s.readCbor limit depth bytes
    return (← inRange (read b), rest)

def Fields.fill {α σ : Type} (limit : Nat) :
    (fields : Fields α σ) → (depth : Nat) → Bytes → σ → Option (Reader σ)
  | .nil, _, _, _ => none
  | .cons name _ s rest, depth, key, (met, others) =>
    if key = Bytes.ofText name then
      some fun bytes => do
        if met.isSome then .error (.duplicate name)
        let (a, rest) ← s.readCbor limit depth bytes
        return ((some a, others), rest)
    else
      (rest.fill limit depth key others).map fun read bytes => do
        let (others, rest) ← read bytes
        return ((met, others), rest)

def Cases.readCbor {α : Type} (limit : Nat) :
    (cases : Cases α) → (name : Bytes) → (depth : Nat) → Reader α
  | .nil, _, _ => fun _ => .error .unknownCase
  | .bare name rest, key, depth => fun bytes =>
    if key = Bytes.ofText name then .ok (.inl (), bytes)
    else do
      let (b, rest) ← rest.readCbor limit key depth bytes
      return (.inr b, rest)
  | .content name s rest, key, depth => fun bytes =>
    if key = Bytes.ofText name then do
      let (a, rest) ← s.readCbor limit depth bytes
      return (.inl a, rest)
    else do
      let (b, rest) ← rest.readCbor limit key depth bytes
      return (.inr b, rest)

end

/-- The value at the front of the bytes. What follows it is ignored. -/
def Shape.ofCbor {α : Type} (s : Shape α) (bytes : Bytes) : Except Cbor.Error α := do
  let (a, _) ← s.readCbor (bytes.length + 1) maxDepth bytes
  return a

end BlockExchange
