/-
  Decimal numbers `significand * 10 ^ exponent` and their texts. A text is laid out either in
  positional notation or as one digit before the point and a power of ten; a style says which of
  the two a number takes.
-/

namespace StateTree

structure Decimal where
  significand : Nat
  exponent : Int
deriving DecidableEq

namespace Decimal

/-- How the digits of a number become a text. -/
structure Style where
  /-- Whether a number is written in positional notation when its first digit counts this power
  of ten. -/
  positional : Int → Bool
  /-- What follows the digits of a whole number in positional notation. -/
  whole : String

/-- The digits of the significand without trailing zeros. -/
def digits (d : Decimal) : List Char :=
  ((Nat.toDigits 10 d.significand).reverse.dropWhile (· = '0')).reverse

/-- How many digits stand before the decimal point; negative for zeros right after it. -/
def point (d : Decimal) : Int := (Nat.toDigits 10 d.significand).length + d.exponent

def zeros (n : Nat) : List Char := List.replicate n '0'

/-- Positional notation of `ds` with the point after the first `point` digits. -/
def positionalText (whole : String) (ds : List Char) (point : Int) : List Char :=
  if point ≤ 0 then '0' :: '.' :: zeros (-point).toNat ++ ds
  else if ds.length ≤ point.toNat then ds ++ zeros (point.toNat - ds.length) ++ whole.toList
  else ds.take point.toNat ++ '.' :: ds.drop point.toNat

/-- The first digit of `ds`, a point before further ones, and the power of ten with its sign. -/
def scientificText (ds : List Char) (power : Int) : List Char :=
  ds.take 1 ++ (if ds.length ≤ 1 then [] else '.' :: ds.drop 1) ++
    'e' :: (if power < 0 then '-' else '+') :: Nat.toDigits 10 power.natAbs

/-- The text of a number other than zero. -/
def text (style : Style) (d : Decimal) : String :=
  String.ofList <|
    if style.positional (d.point - 1) then positionalText style.whole d.digits d.point
    else scientificText d.digits (d.point - 1)

end Decimal

end StateTree
