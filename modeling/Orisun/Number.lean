import Mathlib.Data.String.Basic

/-!
# Comparing JSON number tokens

`CompareJSONNumbers` and the PL/pgSQL `orisun_compare_number` compare two tokens as decimals
without expanding their exponents. Both take a token apart into its significant digits, the
magnitude of the first of them and its sign; they differ in how they compare equal magnitudes.
-/

namespace Orisun

def isDigit (c : Char) : Bool := '0' ≤ c && c ≤ '9'

/-- What may follow a number's fraction: nothing, or an exponent. -/
def exponentPattern : List Char → Bool
  | [] => true
  | c :: s =>
    let digits := match s with
      | '+' :: s => s
      | '-' :: s => s
      | s => s
    (c == 'e' || c == 'E') && !digits.isEmpty && digits.all isDigit

def fractionPattern : List Char → Bool
  | '.' :: d :: s => isDigit d && exponentPattern (s.dropWhile isDigit)
  | s => exponentPattern s

/-- `^-?(0|[1-9][0-9]*)(\.[0-9]+)?([eE][+-]?[0-9]+)?$`. -/
def jsonNumberPattern (s : List Char) : Bool :=
  let unsigned := match s with
    | '-' :: s => s
    | s => s
  match unsigned with
  | '0' :: s => fractionPattern s
  | d :: s => isDigit d && fractionPattern (s.dropWhile isDigit)
  | [] => false

def digitsValue (ds : List Char) : ℕ := ds.foldl (fun n d => 10 * n + (d.toNat - 48)) 0

/-- The value of an exponent, with its sign if it has one. -/
def exponentValue : List Char → ℤ
  | '-' :: ds => -(digitsValue ds : ℤ)
  | '+' :: ds => digitsValue ds
  | ds => digitsValue ds

structure DecimalParts where
  /-- The digits from the first that is not zero on; none for a zero. -/
  digits : List Char
  magnitude : ℤ
  negative : Bool

def decimalParts (s : List Char) : Option DecimalParts :=
  if !jsonNumberPattern s then none
  else
    let negative := s.head? == some '-'
    let s := if negative then s.tail else s
    let mantissa := s.takeWhile fun c => c != 'e' && c != 'E'
    let exponent := exponentValue (s.drop (mantissa.length + 1))
    let fractional := (mantissa.dropWhile (· != '.')).length - 1
    let digits := (mantissa.filter (· != '.')).dropWhile (· == '0')
    if digits.isEmpty then some ⟨[], exponent, false⟩
    else some ⟨digits, exponent + ((digits.length : ℤ) - fractional), negative⟩

/-- The first place the digits differ at, a missing digit counting as `0`. -/
def compareDigits : List Char → List Char → ℤ
  | [], [] => 0
  | a :: as, [] => if a > '0' then 1 else compareDigits as []
  | [], b :: bs => if '0' < b then -1 else compareDigits [] bs
  | a :: as, b :: bs => if a < b then -1 else if a > b then 1 else compareDigits as bs

/-- How two tokens' parts compare, their digits of one magnitude compared by `cmp`. -/
def compareParts (cmp : List Char → List Char → ℤ) (a b : DecimalParts) : ℤ :=
  if a.negative != b.negative then (if a.negative then -1 else 1)
  else
    let c :=
      if a.digits.isEmpty && b.digits.isEmpty then 0
      else if a.digits.isEmpty then -1
      else if b.digits.isEmpty then 1
      else if a.magnitude < b.magnitude then -1
      else if b.magnitude < a.magnitude then 1
      else cmp a.digits b.digits
    if a.negative then -c else c

/-- Go: `none` where an operand is not a JSON number. -/
def compareJSONNumbers (a b : String) : Option ℤ := do
  let pa ← decimalParts a.toList
  let pb ← decimalParts b.toList
  return compareParts compareDigits pa pb

/-- The digits padded with zeros to one length and compared as text under `COLLATE "C"`. -/
def comparePadded (a b : List Char) : ℤ :=
  let n := max a.length b.length
  let a := a ++ List.replicate (n - a.length) '0'
  let b := b ++ List.replicate (n - b.length) '0'
  if a < b then -1 else if b < a then 1 else 0

/-- PL/pgSQL: `none` for `NULL`. -/
def orisunCompareNumber (a b : String) : Option ℤ := do
  let pa ← decimalParts a.toList
  let pb ← decimalParts b.toList
  return compareParts comparePadded pa pb

end Orisun
