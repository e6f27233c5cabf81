/-
The text of a floating-point number: its shortest decimal, written out with at least one digit after
the point from 10^-4 up to 10^16, and with a power of ten outside of that.
-/
import ArithLang.Binary64.Shortest

namespace ArithLang.Binary64

namespace Decimal

/-- Where the decimal point stands in the written digits, counted from before the first of them. -/
def pointPosition (digits : List Char) (d : Decimal) : Int := digits.length + d.exponent

/-- The digits with a point in or beside them, and zeros for the places they leave out. -/
def positional (digits : List Char) (point : Int) : List Char :=
  if point ≤ 0 then '0' :: '.' :: (List.replicate (-point).toNat '0' ++ digits)
  else
    let places := point.toNat
    if digits.length ≤ places then digits ++ List.replicate (places - digits.length) '0' ++ ['.', '0']
    else digits.take places ++ '.' :: digits.drop places

/-- One digit before the point, and the power of ten that is left. A single digit needs no point. -/
def scientific (digits : List Char) (point : Int) : List Char :=
  let mantissa := match digits with
    | first :: rest@(_ :: _) => first :: '.' :: rest
    | single => single
  let exponent := point - 1
  mantissa ++ 'e' :: ((if exponent < 0 then ['-'] else []) ++ Nat.toDigits 10 exponent.natAbs)

def text (d : Decimal) : String :=
  let digits := Nat.toDigits 10 d.coefficient
  let point := d.pointPosition digits
  String.ofList (if -3 ≤ point ∧ point ≤ 16 then positional digits point else scientific digits point)

end Decimal

def text : Binary64 → String
  | finite negative rank =>
    (if negative then "-" else "") ++ (if rank.val = 0 then "0.0" else (shortest rank.val).text)
  | infinite negative => if negative then "-inf" else "inf"
  | nan => "NaN"

end ArithLang.Binary64
