import StateTree.Binary64.Nearest

/-
  Scaling by powers of ten in rounded steps. Each step multiplies or divides by a power of ten up
  to `10^308`, itself rounded, and rounds the result. So a scaled number can lie a few places off
  the number nearest to the exact product.
-/

namespace StateTree.Binary64

/-- The rounded product of two finite numbers. -/
def mul (x y : Binary64) : Binary64 :=
  nearest (x.isNegative ^^ y.isNegative) (x.units * y.units) (unitsInOne * unitsInOne)

/-- The rounded quotient of two finite numbers, the second one not zero. -/
def div (x y : Binary64) : Binary64 :=
  nearest (x.isNegative ^^ y.isNegative) x.units y.units

def powerOfTen (n : Nat) : Binary64 := nearest false (10 ^ n) 1

/-- The largest power of ten that is a finite number. -/
def largestPower : Nat := 308

/-- The finite number `x` times a power of ten, unless that is too large for a finite number. A
power too small for one step takes several, each by the largest power, down to zero at the
least. -/
def scale? (x : Binary64) (power : Int) : Option Binary64 :=
  if power.natAbs ≤ largestPower then
    if 0 ≤ power then
      let y := x.mul (powerOfTen power.toNat)
      if y.isFinite then some y else none
    else some (x.div (powerOfTen power.natAbs))
  else if x.units = 0 then some x
  else if 0 ≤ power then none
  else scale? (x.div (powerOfTen largestPower)) (power + largestPower)
termination_by (-power).toNat
decreasing_by
  simp only [largestPower]
  omega

end StateTree.Binary64
