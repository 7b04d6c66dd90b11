import HitTest.Scalar

/-!
# Sources of random numbers

A source of words yields words of 64 bits, one after the other, and a source of scalars yields
scalars from zero to one. Every source of words is a source of scalars: of a word the leading 53
bits are read as a fraction of 64 bits, which is exact, and rounded to the scalar. The simplest
source counts.
-/

namespace HitTest

/-- A source of words: the next word, and the source after it (`Rng::next_u64`). -/
class WordSource (G : Type) where
  next : G → UInt64 × G

/-- A source of scalars from zero to one (`random_scalar`). -/
class ScalarSource (G S : Type) where
  next : G → S × G

/-- The fraction that a word stands for, from zero to below one (`Rng::gen` in 64 bits). -/
def unitFraction (word : UInt64) : Binary64 := .ofDyadic (word >>> 11).toNat (-53)

instance {G S : Type} [WordSource G] [Scalar S] : ScalarSource G S where
  next g :=
    let (word, g) := WordSource.next g
    (Scalar.ofBinary64 (unitFraction word), g)

/-! ## Counters -/

/-- A counter counts up in equal steps, modulo `2 ^ 64`: the next word, and what is added to it for
the word after (`StepRng`). -/
structure Counter where
  word : UInt64
  step : UInt64

instance : WordSource Counter := ⟨fun c => (c.word, ⟨c.word + c.step, c.step⟩)⟩

end HitTest
