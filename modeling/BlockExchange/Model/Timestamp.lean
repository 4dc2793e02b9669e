namespace BlockExchange

structure Timestamp where
  seconds : Int := 0
  nanos : Int := 0
  deriving DecidableEq, Repr

def saturate (n : Int) : Int :=
  max (-0x8000000000000000) (min n 0x7fffffffffffffff)

namespace Timestamp

instance : Ord Timestamp where
  compare a b := (compare a.seconds b.seconds).then (compare a.nanos b.nanos)

instance : LE Timestamp where
  le a b := a.seconds < b.seconds ∨ (a.seconds = b.seconds ∧ a.nanos ≤ b.nanos)

instance (a b : Timestamp) : Decidable (a ≤ b) :=
  inferInstanceAs (Decidable (_ ∨ _))

def newer (a b : Timestamp) : Timestamp :=
  if a ≤ b then b else a

/-- Milliseconds, nanoseconds cut toward zero, held inside 64 bits at each step. -/
def toMillis (t : Timestamp) : Int :=
  saturate (saturate (t.seconds * 1000) + t.nanos.tdiv 1000000)

end Timestamp

end BlockExchange
