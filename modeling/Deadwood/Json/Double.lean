/-!
# Numbers of double precision

A finite number of double precision is a mantissa times a power of two. All arithmetic here is on
whole numbers, and a result is rounded once, to the nearest number and to the even one of two.

`Double.ofParts?` is how a number is read: its digits are rounded, and so is their product with a
power of ten. `Double.shortest` finds the fewest digits that stand for a number, which are those
that are written. The reader rounds twice, so some numbers are not read back as they were written.
-/

namespace Deadwood

/-- Are these the mantissa and the scale of a finite number? The mantissa has 53 binary digits, or
    fewer if the scale is zero. -/
def Double.IsCanonical (mantissa scale : Nat) : Prop :=
  mantissa < 0x20000000000000 ∧ scale ≤ 2045 ∧ (0x10000000000000 ≤ mantissa ∨ scale = 0)

instance (mantissa scale : Nat) : Decidable (Double.IsCanonical mantissa scale) :=
  inferInstanceAs (Decidable (_ ∧ _ ∧ (_ ∨ _)))

/-- A finite number of double precision: `mantissa * 2 ^ (scale - 1074)`, or the negative of it. -/
structure Double where
  negative : Bool
  mantissa : Nat
  scale : Nat
  canonical : Double.IsCanonical mantissa scale
  deriving Repr, DecidableEq

namespace Double

/-- The number zero. -/
def zero (negative : Bool) : Double := ⟨negative, 0, 0, by decide⟩

instance : Inhabited Double := ⟨zero false⟩

/-- The magnitude as a multiple of the least positive number, which is `2 ^ -1074`. -/
def units (f : Double) : Nat := f.mantissa * Nat.pow 2 f.scale

/-- How many of the least positive numbers make one. -/
def unitsOfOne : Nat := Nat.pow 2 1074

/-- The quotient, rounded to the nearest whole number and to the even one of two. -/
def roundQuotient (n d : Nat) : Nat :=
  let low := n / d
  let twice := 2 * (n % d)
  if twice < d || twice == d && low % 2 == 0 then low else low + 1

/-- The number nearest to `n / d`, or none if that is too large. -/
def ofRatio? (negative : Bool) (n d : Nat) : Option Double :=
  let n := n * unitsOfOne
  let scale := Nat.log2 (n / d) - 52
  let rounded := roundQuotient n (d * Nat.pow 2 scale)
  -- rounding up may make one more binary digit
  let (mantissa, scale) :=
    if rounded = 0x20000000000000 then (0x10000000000000, scale + 1) else (rounded, scale)
  if h : IsCanonical mantissa scale then some ⟨negative, mantissa, scale, h⟩ else none

/-- The number nearest to a power of ten. -/
def powerOfTen? (n : Nat) : Option Double := ofRatio? false (Nat.pow 10 n) 1

/-- The product with a power of ten, both rounded. -/
def timesPowerOfTen? (f : Double) (n : Nat) : Option Double :=
  (powerOfTen? n).bind fun p =>
    ofRatio? f.negative (f.units * p.units) (unitsOfOne * unitsOfOne)

/-- The quotient by a power of ten, both rounded. -/
def overPowerOfTen? (f : Double) (n : Nat) : Option Double :=
  (powerOfTen? n).bind fun p => ofRatio? f.negative f.units p.units

/-- The quotient by a power of ten, which is divided out in steps of `10 ^ 308`, as many as `steps`
    says, and the rest at last. It stops at zero. -/
def scaleDown? (steps : Nat) (f : Double) (n : Nat) : Option Double :=
  match steps with
  | 0 => f.overPowerOfTen? n
  | steps + 1 =>
    if f.mantissa = 0 then some f
    else (f.overPowerOfTen? 308).bind fun f => scaleDown? steps f (n - 308)

/-- How `significand * 10 ^ exponent` is read; none if that is too large. -/
def ofParts? (negative : Bool) (significand : Nat) (exponent : Int) : Option Double :=
  (ofRatio? negative significand 1).bind fun f =>
    match exponent with
    | .ofNat n =>
      if n ≤ 308 then f.timesPowerOfTen? n else if f.mantissa = 0 then some f else none
    | .negSucc n => f.scaleDown? (n / 308) (n + 1)

/-! ## Digits -/

/-- By how many places numbers are shifted so that their digits stand before the point. -/
def places : Nat := 341

/-- The magnitude, shifted by `places`, as a fraction of `unitsOfOne`. -/
def shifted (f : Double) : Nat := f.units * Nat.pow 10 places

/-- The number of digits before the point, when the number is shifted. -/
def width (f : Double) : Nat := (Nat.toDigits 10 (f.shifted / unitsOfOne)).length

/-- The whole number of so many digits that stands for the number when zeros follow, if there is
    one; the nearest one if there are two. -/
def withDigits? (f : Double) (count : Nat) : Option Nat :=
  let step := Nat.pow 10 (f.width - count)
  let standsFor (d : Nat) : Bool := ofRatio? f.negative (d * step) (Nat.pow 10 places) == some f
  let low := f.shifted / (unitsOfOne * step)
  match standsFor low, standsFor (low + 1) with
  | true, true => some (roundQuotient f.shifted (unitsOfOne * step))
  | true, false => some low
  | false, true => some (low + 1)
  | false, false => none

/-- The fewest digits that stand for the number, as a whole number and the power of ten that it is
    multiplied with. Seventeen digits are always enough. -/
def shortest (f : Double) : Nat × Int :=
  let found := (List.range 16).findSome? fun n => (f.withDigits? (n + 1)).map fun d => (d, n + 1)
  let (d, count) := found.getD
    (roundQuotient f.shifted (unitsOfOne * Nat.pow 10 (f.width - 17)), 17)
  (d, (f.width : Int) - count - places)

end Double
end Deadwood
