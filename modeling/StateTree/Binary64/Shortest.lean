import StateTree.Binary64.Nearest

/-
  The shortest decimal that reads back as a given number. For one digit, two digits and so on the
  two neighbours of the number on that decimal grid are tried. The first grid on which one of them
  reads back wins; if both do, the nearer one, and halfway between them the side that a rule names.
-/

namespace StateTree.Binary64

/-- Which of two neighbours stands for a number halfway between them. -/
inductive Tie
  | toEven
  | up
deriving DecidableEq

def Tie.takesUpper (tie : Tie) (lower : Nat) : Bool :=
  match tie with
  | .toEven => lower % 2 = 1
  | .up => true

/-- How many digits a positive number has before the decimal point; the least one begins 323
zeros after it. -/
def point (x : Binary64) : Int :=
  (Nat.toDigits 10 (x.units * 10 ^ (324 : Nat) / unitsInOne)).length - 324

def readsBack (x : Binary64) (d : Decimal) : Bool := (ofDecimal false d).ordinal = x.ordinal

/-- The one of two neighbours that reads back. If both do, it is the nearer one, be it below or
not. -/
def takeBack? (x : Binary64) (below above : Decimal) (belowIsNearer : Bool) : Option Decimal :=
  match x.readsBack below, x.readsBack above with
  | true, true => some (if belowIsNearer then below else above)
  | true, false => some below
  | false, true => some above
  | false, false => none

/-- The neighbour of a positive number on the grid of `count` digits that reads back, the nearer
one if both do. -/
def candidate? (tie : Tie) (x : Binary64) (count : Nat) : Option Decimal :=
  let exponent := x.point - count
  let num := x.units * 10 ^ (-exponent).toNat
  let den := unitsInOne * 10 ^ exponent.toNat
  let lower := num / den
  let r := num % den
  x.takeBack? ⟨lower, exponent⟩ ⟨lower + 1, exponent⟩
    (2 * r < den || (2 * r = den && !tie.takesUpper lower))

/-- All digits of a positive number. -/
def exact (x : Binary64) : Decimal := ⟨x.units * 5 ^ (1074 : Nat), -1074⟩

/-- The first grid with a neighbour that reads back; the grid of seventeen digits always has one. -/
def shortest (tie : Tie) (x : Binary64) : Decimal :=
  ((List.range 17).findSome? fun i => x.candidate? tie (i + 1)).getD x.exact

/-- The shortest decimal of a finite number other than zero in the given style, with its sign. -/
def text (tie : Tie) (style : Decimal.Style) (x : Binary64) : String :=
  (if x.isNegative then "-" else "") ++ (x.shortest tie).text style

end StateTree.Binary64
