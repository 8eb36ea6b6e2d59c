import LogDensity.Binary64.Text
import LogDensity.Model.Basic

/-!
# Random initial values

Initial values are drawn uniformly between `-radius` and `radius`, one word of the source per
parameter: the upper 52 bits of the word are a fraction, which is scaled to the width of the
interval and moved to its lower bound. The width is lowered, if need be, until the largest fraction
stays within the upper bound.
-/

namespace LogDensity

/-- Why there is no uniform distribution between two bounds. -/
inductive UniformError
  | nonFinite
  | emptyRange
  deriving DecidableEq, Repr

/-- The wording of the error. -/
def UniformError.message : UniformError → String
  | nonFinite => "Non-finite range in uniform distribution"
  | emptyRange => "low > high (or equal if exclusive) in uniform distribution"

/-- A uniform distribution from `low` on, `scale` wide. -/
structure Uniform where
  low : Float
  scale : Float

namespace Uniform

/-- The largest fraction that a word stands for, `1 - 2 ^ (-52)`. -/
def maxFraction : Float :=
  Binary64.ofParts false (Nat.pow 2 52 - 1) (-52)

/-- The fraction that the upper 52 bits of a word stand for. -/
def fraction (w : UInt64) : Float :=
  Binary64.ofParts false (w >>> 12).toNat (-52)

/-- Lowers the scale, at most `n` times, while the largest fraction exceeds the upper bound. -/
def fit (low high : Float) : Nat → Float → Float
  | 0, scale => scale
  | n + 1, scale =>
    if high < scale * maxFraction + low then fit low high n (Binary64.below scale) else scale

/-- The uniform distribution between two bounds. -/
def between (low high : Float) : Except UniformError Uniform :=
  if !low.isFinite || !high.isFinite then .error .nonFinite
  else if !(low < high) then .error .emptyRange
  else
    let scale := high - low
    if !scale.isFinite then .error .nonFinite
    else .ok ⟨low, fit low high 64 scale⟩

/-- The draw that a word stands for. -/
def draw (u : Uniform) (w : UInt64) : Float :=
  fraction w * u.scale + u.low

end Uniform

/-- The half width of the interval that initial values are drawn from unless told otherwise. -/
def defaultInitRadius : Float := 2

/-- Draws `n` values. -/
def drawMany (u : Uniform) : Nat → WordSource → List Float × WordSource
  | 0, s => ([], s)
  | n + 1, s =>
    let (w, s) := s.next
    let (xs, s) := drawMany u n s
    (u.draw w :: xs, s)

/-- Initial values for all continuous parameters of a model. -/
def randomInits (space : ParameterSpace) (radius : Float) (s : WordSource) :
    Except EvalError (List Float) × WordSource :=
  match Uniform.between (-radius) radius with
  | .ok u =>
    let (xs, s) := drawMany u space.size s
    (.ok xs, s)
  | .error e =>
    (.error (.domain s!"invalid initialization radius {Binary64.display radius}: {e.message}"), s)

end LogDensity
