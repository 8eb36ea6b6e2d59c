/-!
# Word sources

Random draws consume 64-bit words of a source, in order. A source here is an endless sequence of
words together with the number of those already used.
-/

namespace LogDensity

/-- A sequence of words, and how many of them have been used. -/
structure WordSource where
  word : Nat → UInt64
  used : Nat := 0

namespace WordSource

/-- The words of a list over and over; zeros if it is empty. -/
def ofCycle (words : List UInt64) : WordSource where
  word i := words[i % words.length]?.getD 0

/-- The next word. -/
def next (s : WordSource) : UInt64 × WordSource :=
  (s.word s.used, { s with used := s.used + 1 })

end WordSource

end LogDensity
