import Dataflow.Decimal.Shortest

/-!
# Decimal text of a double

A layout says how a shortest decimal is written out: for which scientific exponents the digits are
placed around a decimal point, whether a whole number keeps a mark that it is not an integer, and
how an exponent is written otherwise. The text of a double is its sign, then its laid out magnitude.
-/

namespace Dataflow.Decimal

/-- How a format writes doubles. -/
structure Layout where
  /-- The least scientific exponent written without an exponent; unbounded if absent. -/
  least? : Option Int
  /-- The greatest scientific exponent written without an exponent; unbounded if absent. -/
  greatest? : Option Int
  /-- Whether whole numbers end in a point and a zero. -/
  marksWhole : Bool
  /-- Whether exponents from zero on carry a plus sign. -/
  plusSign : Bool
  /-- Which of two equally near shortest decimals is written. -/
  tie : Tie

/-- Digits around a decimal point, the first digit having the given scientific exponent. -/
def positional (marksWhole : Bool) (digits : List Char) (exponent : Int) : List Char :=
  let whole := (exponent + 1).toNat
  if exponent < 0 then
    '0' :: '.' :: List.replicate (-exponent - 1).toNat '0' ++ digits
  else if digits.length ≤ whole then
    digits ++ List.replicate (whole - digits.length) '0' ++ if marksWhole then ['.', '0'] else []
  else
    digits.take whole ++ '.' :: digits.drop whole

/-- One digit, the others behind a point, and the scientific exponent. -/
def scientific (plusSign : Bool) (digits : List Char) (exponent : Int) : List Char :=
  let fraction := digits.drop 1
  digits.take 1 ++ (if fraction.isEmpty then [] else '.' :: fraction) ++
    'e' :: (if exponent < 0 then ['-'] else if plusSign then ['+'] else []) ++
      Nat.toDigits 10 exponent.natAbs

/-- Whether the layout writes this scientific exponent around a decimal point. -/
def Layout.isPositional (l : Layout) (exponent : Int) : Bool :=
  l.least?.all (· ≤ exponent) && l.greatest?.all (exponent ≤ ·)

/-- The numeral as the layout writes it. -/
def Layout.numeral (l : Layout) (d : Numeral) : List Char :=
  let digits := Nat.toDigits 10 d.coefficient
  let exponent := d.exponent + (digits.length - 1 : Nat)
  if l.isPositional exponent then positional l.marksWhole digits exponent
  else scientific l.plusSign digits exponent

/-- Whether the sign bit is set. -/
def isNegative (x : Float) : Bool := Nat.pow 2 63 ≤ x.toBits.toNat

/-- The double as the layout writes it; the sign of zero is kept and that of NaN is not. -/
def Layout.text (l : Layout) (x : Float) : String :=
  if x.isNaN then "NaN"
  else
    let sign := if isNegative x then ['-'] else []
    if x.isInf then String.ofList (sign ++ ['i', 'n', 'f'])
    else String.ofList (sign ++ l.numeral ((Magnitude.ofBits x.toBits).shortest l.tie))

end Dataflow.Decimal
