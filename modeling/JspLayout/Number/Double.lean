import JspLayout.Text.Digit

/-! Double-precision numbers, exactly.

    A finite number is a whole number of at most 53 bits times a power of two. Reading a decimal
    takes the nearest number, a tie going to the even one; writing takes the fewest digits that read
    back as the same number and, of those, the nearest. All steps are exact arithmetic on natural
    numbers. -/

namespace JspLayout

/-- A double-precision number; a finite one is `mantissa * 2 ^ exponent`, negated where `negative`
    holds. -/
inductive Double where
  | finite (negative : Bool) (mantissa : Nat) (exponent : Int)
  | infinite (negative : Bool)
  | nan
  deriving DecidableEq, Repr

namespace Double

/-- The least exponent. -/
def minExponent : Int := -1074

/-- The greatest exponent. -/
def maxExponent : Int := 971

def zero (negative : Bool) : Double := .finite negative 0 minExponent

/-- The quotient rounded to the nearest natural number, ties to the even one. -/
def roundDiv (num den : Nat) : Nat :=
  let q := num / den
  let twice := 2 * (num % den)
  if twice > den ∨ (twice = den ∧ q % 2 = 1) then q + 1 else q

/-- `num / den` divided by `2 ^ e`, rounded. -/
def scaled (num den : Nat) (e : Int) : Nat :=
  if e ≥ 0 then roundDiv num (den * Nat.pow 2 e.toNat)
  else roundDiv (num * Nat.pow 2 (-e).toNat) den

/-- The number nearest to `num / den`. -/
def ofRatio (negative : Bool) (num den : Nat) : Double :=
  if num = 0 then zero negative
  else
    let e : Int := (num.log2 : Int) - den.log2 - 52
    let e := if scaled num den e < Nat.pow 2 52 then e - 1 else e
    let e := max e minExponent
    let m := scaled num den e
    let (m, e) := if m = Nat.pow 2 53 then (Nat.pow 2 52, e + 1) else (m, e)
    if e > maxExponent then .infinite negative else .finite negative m e

/-- The number nearest to `n * 10 ^ e`. -/
def ofDecimal (negative : Bool) (n : Nat) (e : Int) : Double :=
  let size : Int := (Text.ofNat n).length + e
  if n = 0 ∨ size < -400 then zero negative
  else if size > 400 then .infinite negative
  else if e ≥ 0 then ofRatio negative (n * Nat.pow 10 e.toNat) 1
  else ofRatio negative n (Nat.pow 10 (-e).toNat)

def ofInt (i : Int) : Double := ofRatio (i < 0) i.natAbs 1

/-- The magnitude of a finite number as numerator and denominator. -/
def ratio (mantissa : Nat) (exponent : Int) : Nat × Nat :=
  if exponent ≥ 0 then (mantissa * Nat.pow 2 exponent.toNat, 1)
  else (mantissa, Nat.pow 2 (-exponent).toNat)

/-- At most zero; the number that is none is not. -/
def isAtMostZero : Double → Bool
  | .finite negative m _ => negative || m == 0
  | .infinite negative => negative
  | .nan => false

/-! ### Writing -/

/-- The exponent of the leading decimal digit of `num / den`, for `num` not zero. -/
def decimalExponent (num den : Nat) : Int :=
  if den ≤ num then ((Text.ofNat (num / den)).length : Int) - 1
  else
    let shift := ((List.range 400).find? fun t => den ≤ num * Nat.pow 10 t).getD 400
    Int.negOfNat shift

/-- `n` without trailing zeros, and how many there were. -/
def stripZeros (n : Nat) : Nat × Nat :=
  let ds := (Text.ofNat n).reverse
  let zeros := (ds.takeWhile (· == '0')).length
  if n = 0 then (0, 0) else (n / Nat.pow 10 zeros, zeros)

/-- The decimal of `k` digits that is nearest to a finite magnitude among those that read back as
    it. -/
def withDigits? (mantissa : Nat) (exponent : Int) (k : Nat) : Option (Nat × Int) :=
  let (num, den) := ratio mantissa exponent
  let e := decimalExponent num den - (k - 1)
  let (n, d) :=
    if e ≥ 0 then (num, den * Nat.pow 10 e.toNat) else (num * Nat.pow 10 (-e).toNat, den)
  let low := n / d
  let reads := fun c => ofDecimal false c e == .finite false mantissa exponent
  let nearLow := 2 * (n % d) < d ∨ (2 * (n % d) = d ∧ low % 2 = 0)
  match reads low, reads (low + 1) with
  | true, true => some (if nearLow then low else low + 1, e)
  | true, false => some (low, e)
  | false, true => some (low + 1, e)
  | false, false => none

/-- The shortest decimal of a finite magnitude that is not zero: digits and exponent. -/
def shortest (mantissa : Nat) (exponent : Int) : Nat × Int :=
  match (List.range' 1 17).findSome? (withDigits? mantissa exponent) with
  | some (n, e) =>
    let (n, zeros) := stripZeros n
    (n, e + zeros)
  | none => (mantissa, 0)

/-- An exponent with its sign and at least two digits. -/
def exponentText (e : Int) : Text :=
  let ds := Text.ofNat e.natAbs
  (if e < 0 then '-' else '+') :: (if ds.length < 2 then '0' :: ds else ds)

/-- Digits with a point after the first `n`, `n` not negative, and zeros as needed. -/
def pointed (ds : Text) (n : Nat) : Text :=
  if n < ds.length then ds.take n ++ '.' :: ds.drop n
  else ds ++ List.replicate (n - ds.length) '0' ++ ['.', '0']

/-- The digits of a decimal whose leading digit has exponent `lead`: positional from 1e-4 up to
    1e16, otherwise with an exponent. -/
def decimalText (ds : Text) (lead : Int) : Text :=
  if -4 ≤ lead ∧ lead < 16 then
    if lead < 0 then '0' :: '.' :: List.replicate (-lead - 1).toNat '0' ++ ds
    else pointed ds (lead.toNat + 1)
  else
    let mantissa := if ds.length = 1 then ds else ds.take 1 ++ '.' :: ds.drop 1
    mantissa ++ 'e' :: exponentText lead

/-- The text of a number: the fewest digits that read back. -/
def text : Double → Text
  | .nan => "nan".toList
  | .infinite negative => if negative then "-inf".toList else "inf".toList
  | .finite negative m e =>
    let body :=
      if m = 0 then "0.0".toList
      else
        let (n, e) := shortest m e
        let ds := Text.ofNat n
        decimalText ds (e + ds.length - 1)
    if negative then '-' :: body else body

/-! ### Reading -/

/-- The value of a run of ASCII digits. -/
def digitsValue (ds : Text) : Nat := ds.foldl (fun n c => n * 10 + (c.toNat - 0x30)) 0

/-- The exponent after the mark that `s` begins with; without a mark it is zero. -/
def exponent? (s : Text) : Option Int :=
  match s with
  | [] => some 0
  | mark :: r =>
    if mark = 'e' ∨ mark = 'E' then
      let (negative, ds) :=
        match r with
        | '-' :: ds => (true, ds)
        | '+' :: ds => (false, ds)
        | ds => (false, ds)
      if ds = [] ∨ !ds.all Char.isDigit then none
      else some (if negative then -(digitsValue ds : Int) else digitsValue ds)
    else none

/-- The magnitude that a text without sign stands for. -/
def magnitude? (negative : Bool) (s : Text) : Option Double :=
  let word := s.map Char.toLower
  if word = "inf".toList ∨ word = "infinity".toList then some (.infinite negative)
  else if word = "nan".toList then some .nan
  else
    let whole := s.takeWhile Char.isDigit
    let rest := s.dropWhile Char.isDigit
    let (part, rest) :=
      match rest with
      | '.' :: r => (r.takeWhile Char.isDigit, r.dropWhile Char.isDigit)
      | r => ([], r)
    if whole = [] ∧ part = [] then none
    else
      (exponent? rest).map fun e =>
        ofDecimal negative (digitsValue (whole ++ part)) (e - part.length)

end Double

end JspLayout
