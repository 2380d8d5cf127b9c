import StateTree.Binary64.Shortest

/-
  Numbers of a configuration: 64-bit integers and 64-bit floating-point numbers. Two integers
  compare by value; any other pair compares by the nearest floating-point numbers, in their total
  order with both zeros at one place. So an integer beyond `2^53` can be equal to a
  floating-point number that is equal to its neighbour too.
-/

namespace StateTree

inductive Number
  | int (i : Int64)
  | float (x : Binary64)
deriving DecidableEq

namespace Number

/-- An integer where 64 bits hold it, else the nearest floating-point number. -/
def ofInt (i : Int) : Number :=
  if Int64.minValue.toInt ≤ i ∧ i ≤ Int64.maxValue.toInt then .int (Int64.ofInt i)
  else .float (Binary64.ofInt i)

def toBinary64 : Number → Binary64
  | .int i => Binary64.ofInt i.toInt
  | .float x => x

/-- The integer that a number is. Floating-point numbers count up to a magnitude of `2^53`. -/
def toInt? : Number → Option Int
  | .int i => some i.toInt
  | .float x => x.toInt?

def toNat? (n : Number) : Option Nat :=
  n.toInt?.bind fun i => if 0 ≤ i then some i.toNat else none

def compare : Number → Number → Ordering
  | .int i, .int j => Ord.compare i.toInt j.toInt
  | m, n => m.toBinary64.compare n.toBinary64

def same (m n : Number) : Bool := m.compare n == .eq

/-- Positional notation throughout, and a whole number without a point. -/
def plainStyle : Decimal.Style := ⟨fun _ => true, ""⟩

/-- The text of a number on its own. A tie between two shortest forms goes to the larger. -/
def text (n : Number) : String :=
  match n.toInt? with
  | some i => toString i
  | none =>
    let x := n.toBinary64
    if x.isNaN then "NaN"
    else if x.isInfinite then (if x.isNegative then "-inf" else "inf")
    else x.text .up plainStyle

theorem compare_self (n : Number) : n.compare n = .eq := by
  cases n <;> simp [compare, Binary64.compare]

theorem same_self (n : Number) : n.same n = true := by simp [same, compare_self]

end Number

end StateTree
