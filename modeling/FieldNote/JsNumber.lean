import FieldNote.JsText
import Mathlib.Data.Rat.Floor

/-!
# Reading a number from a string

`Number(s)`: white space is trimmed, an empty text is zero, and what is left is a decimal
literal, a literal with a radix or an infinity. The exact value is rounded to the nearest
double, ties to even. The two zeros are one number here.
-/
namespace FieldNote

inductive JsNumber where
  | nan
  | infinity (negative : Bool)
  | finite (value : ℚ)
deriving DecidableEq

namespace JsNumber

/-- The greatest `k` with `2 ^ k ≤ q`, for a positive `q`. -/
def exponentOf (q : ℚ) : ℤ :=
  let k : ℤ := (Nat.log2 q.num.natAbs : ℤ) - Nat.log2 q.den
  if (2 : ℚ) ^ k ≤ q then k else k - 1

/-- The nearest integer; of two, the even one. -/
def nearest (q : ℚ) : ℤ :=
  let below := ⌊q⌋
  let rest := q - below
  if rest < 1 / 2 then below
  else if 1 / 2 < rest then below + 1
  else if below % 2 = 0 then below
  else below + 1

/-- The double nearest to a non-negative value. -/
def round (q : ℚ) : JsNumber :=
  if q = 0 then .finite 0
  else
    let e := max (exponentOf q - 52) (-1074)
    let value := nearest (q / 2 ^ e) * (2 : ℚ) ^ e
    if 2 ^ 1024 ≤ value then .infinity false else .finite value

def neg : JsNumber → JsNumber
  | .nan => .nan
  | .infinity negative => .infinity (!negative)
  | .finite value => .finite (-value)

def digit? (radix : ℕ) (c : Char) : Option ℕ :=
  let value : Option ℕ :=
    if '0' ≤ c ∧ c ≤ '9' then some (c.toNat - '0'.toNat)
    else if 'a' ≤ c ∧ c ≤ 'z' then some (c.toNat - 'a'.toNat + 10)
    else if 'A' ≤ c ∧ c ≤ 'Z' then some (c.toNat - 'A'.toNat + 10)
    else none
  value.filter (· < radix)

/-- The value of a non-empty sequence of digits. -/
def digits? (radix : ℕ) : List Char → Option ℕ
  | [] => none
  | cs => cs.foldlM (fun value c => (digit? radix c).map (value * radix + ·)) 0

/-- A sequence of digits that may be empty. -/
def digitsOrNone (cs : List Char) : Option ℕ :=
  match cs with
  | [] => some 0
  | cs => digits? 10 cs

/-- What follows the letter of an exponent. -/
def exponent? : List Char → Option ℤ
  | '+' :: cs => (digits? 10 cs).map Int.ofNat
  | '-' :: cs => (digits? 10 cs).map fun n => -(n : ℤ)
  | cs => (digits? 10 cs).map Int.ofNat

/-- Digits with at most one point among them, at least one digit. -/
def mantissa? (cs : List Char) : Option ℚ :=
  match cs.splitOn '.' with
  | [whole] => (digits? 10 whole).map fun n => (n : ℚ)
  | [whole, fraction] =>
      if whole = [] ∧ fraction = [] then none
      else do
        let n ← digitsOrNone whole
        let m ← digitsOrNone fraction
        some (n + m / 10 ^ fraction.length)
  | _ => none

def isExponentMark (c : Char) : Bool := c = 'e' || c = 'E'

def unsigned (cs : List Char) : JsNumber :=
  if cs = "Infinity".toList then .infinity false
  else
    let value : Option ℚ :=
      match cs.dropWhile (!isExponentMark ·) with
      | [] => mantissa? cs
      | _ :: power => do
          let m ← mantissa? (cs.takeWhile (!isExponentMark ·))
          let e ← exponent? power
          some (m * 10 ^ e)
    value.elim .nan round

def radixLiteral (radix : ℕ) (cs : List Char) : JsNumber :=
  (digits? radix cs).elim .nan fun n => round n

/-- `Number(s)`. -/
def ofString (s : String) : JsNumber :=
  match JsText.trimChars s.toList with
  | [] => .finite 0
  | '0' :: 'x' :: cs | '0' :: 'X' :: cs => radixLiteral 16 cs
  | '0' :: 'o' :: cs | '0' :: 'O' :: cs => radixLiteral 8 cs
  | '0' :: 'b' :: cs | '0' :: 'B' :: cs => radixLiteral 2 cs
  | '+' :: cs => unsigned cs
  | '-' :: cs => (unsigned cs).neg
  | cs => unsigned cs

def isInteger : JsNumber → Bool
  | .finite value => value.den = 1
  | _ => false

/-- The number is above a bound. -/
def above (bound : ℕ) : JsNumber → Bool
  | .nan => false
  | .infinity negative => !negative
  | .finite value => (bound : ℚ) < value

/-- The number is below a bound. -/
def below (bound : ℕ) : JsNumber → Bool
  | .nan => false
  | .infinity negative => negative
  | .finite value => value < (bound : ℚ)

end JsNumber
end FieldNote
