import JspLayout.Number.Double
import JspLayout.Text.Search

/-! Format specifications.

    A specification says how a text or a number fills a field: a fill character and an alignment, a
    sign, a width, digits in groups, a precision and a notation. A specification that makes no sense
    for what is formatted is refused. -/

namespace JspLayout

/-- A format specification taken apart. -/
structure FormatSpec where
  fill : Option Char
  align : Option Char
  sign : Option Char
  /-- Negative zero is written without its sign. -/
  plainZero : Bool
  alternate : Bool
  /-- A zero right before the width. -/
  zero : Bool
  width : Nat
  group : Option Char
  precision : Option Nat
  kind : Option Char

namespace FormatSpec

def isAlign (c : Char) : Bool := c == '<' || c == '>' || c == '=' || c == '^'

/-- The greatest width or precision. -/
def maxCount : Nat := 9223372036854775807

/-- The number that `s` begins with, if it has digits there, and what follows. -/
def count? (s : Text) : Option (Option Nat × Text) :=
  let ds := s.takeWhile fun c => (digitValue? c).isSome
  let n := ds.foldl (fun n c => n * 10 + (digitValue? c).getD 0) 0
  if n > maxCount then none else some (if ds = [] then none else some n, s.drop ds.length)

/-- One of the characters for which `p` holds, if `s` begins with one, and what follows. -/
def take? (p : Char → Bool) (s : Text) : Option Char × Text :=
  match s with
  | c :: r => if p c then (some c, r) else (none, s)
  | [] => (none, [])

/-- The fill character and the alignment that `s` begins with, and what follows. -/
def alignment (s : Text) : Option Char × Option Char × Text :=
  match s with
  | f :: a :: r =>
    if isAlign a then (some f, some a, r)
    else if isAlign f then (none, some f, a :: r)
    else (none, none, s)
  | [a] => if isAlign a then (none, some a, []) else (none, none, s)
  | [] => (none, none, [])

/-- The separator of digit groups that `s` begins with, and what follows; two different ones are
    refused. -/
def grouping? (s : Text) : Option (Option Char × Text) :=
  match s with
  | ',' :: '_' :: _ => none
  | '_' :: ',' :: _ => none
  | ',' :: r => some (some ',', r)
  | '_' :: r => some (some '_', r)
  | r => some (none, r)

/-- The precision that `s` begins with, and what follows; a point needs digits after it. -/
def precision? (s : Text) : Option (Option Nat × Text) :=
  match s with
  | '.' :: r => do
    let (n, rest) ← count? r
    let n ← n
    pure (some n, rest)
  | r => some (none, r)

/-- A specification taken apart, unless it is malformed. -/
def parse? (s : Text) : Option FormatSpec := do
  let (fill, align, s) := alignment s
  let (sign, s) := take? (fun c => c == ' ' || c == '+' || c == '-') s
  let (z, s) := take? (· == 'z') s
  let (hash, s) := take? (· == '#') s
  let (zero, s) := if fill.isNone then take? (· == '0') s else (none, s)
  let (width, s) ← count? s
  let (group, s) ← grouping? s
  let (precision, s) ← precision? s
  let kind ←
    match s with
    | [] => some none
    | [c] => some (some c)
    | _ => none
  pure ⟨fill, align, sign, z.isSome, hash.isSome, zero.isSome, width.getD 0, group, precision, kind⟩

/-- The text widened to the width of its field. -/
def pad (fill align : Char) (width : Nat) (s : Text) : Text :=
  let missing := width - s.length
  let left :=
    if align = '<' then 0 else if align = '^' then missing / 2 else missing
  List.replicate left fill ++ s ++ List.replicate (missing - left) fill

/-! ### Texts -/

/-- A text in its field. -/
def text? (spec : FormatSpec) (s : Text) : Option Text :=
  let align := spec.align.getD '<'
  if spec.sign.isSome || spec.plainZero || spec.alternate || align == '=' || spec.group.isSome ||
      (spec.kind.getD 's') != 's' then none
  else
    let s :=
      match spec.precision with
      | some n => s.take n
      | none => s
    some (pad (spec.fill.getD (if spec.zero then '0' else ' ')) align spec.width s)

/-! ### Numbers -/

/-- Digits in groups of `size` from the right. -/
def grouped (sep : Option Char) (size : Nat) (ds : Text) : Text :=
  match sep with
  | none => ds
  | some sep =>
    (ds.reverse.zipIdx.flatMap fun (c, i) => if i ≠ 0 ∧ i % size = 0 then [sep, c] else [c]).reverse

/-- Digits in groups with as many zeros before them as make up `width`. -/
def groupedTo (sep : Option Char) (size width : Nat) (ds : Text) : Text :=
  let candidates :=
    (List.range (width + 1)).map fun n => grouped sep size (List.replicate n '0' ++ ds)
  (candidates.find? fun t => width ≤ t.length).getD (grouped sep size ds)

/-- A number in its field, from its sign, the mark of its base, its digits and what follows them. -/
def number (spec : FormatSpec) (negative : Bool) (mark ds rest : Text) (size : Nat) : Text :=
  let sign :=
    if negative then ['-']
    else
      match spec.sign with
      | some '+' => ['+']
      | some ' ' => [' ']
      | _ => []
  let fill := spec.fill.getD (if spec.zero then '0' else ' ')
  let align := spec.align.getD (if spec.zero then '=' else '>')
  let lead := sign ++ mark
  if align = '=' then
    let width := spec.width - lead.length - rest.length
    if fill = '0' then lead ++ groupedTo spec.group size width ds ++ rest
    else lead ++ pad fill '>' width (grouped spec.group size ds) ++ rest
  else pad fill align spec.width (lead ++ grouped spec.group size ds ++ rest)

/-- Digits with a point before the last `places`, which may be none. -/
def fixedParts (alternate : Bool) (n places : Nat) : Text × Text :=
  let ds := Text.ofNat n
  let ds := List.replicate (places + 1 - ds.length) '0' ++ ds
  let whole := ds.take (ds.length - places)
  let part := ds.drop (ds.length - places)
  (whole, if places = 0 && !alternate then [] else '.' :: part)

/-- A magnitude rounded to `n` digits: the digits and the exponent of the first one. -/
def rounded (num den n : Nat) : Nat × Int :=
  if num = 0 then (0, 0)
  else
    let lead := Double.decimalExponent num den
    let e := lead - (n - 1 : Nat)
    let m :=
      if e ≥ 0 then Double.roundDiv num (den * Nat.pow 10 e.toNat)
      else Double.roundDiv (num * Nat.pow 10 (-e).toNat) den
    if m = Nat.pow 10 n then (m / 10, lead + 1) else (m, lead)

/-- Decimals without trailing zeros, and without a point when none are left. -/
def trimZeros (part : Text) : Text :=
  let part := Text.dropEndWhile (· == '0') part
  if part = ['.'] then [] else part

/-- The digits before the point and the rest of a magnitude in scientific notation. -/
def scientificParts (alternate trim : Bool) (mark : Char) (num den places : Nat) : Text × Text :=
  let (m, e) := rounded num den (places + 1)
  let (whole, part) := fixedParts alternate m places
  (whole, (if trim then trimZeros part else part) ++ mark :: Double.exponentText e)

/-- The digits before the point and the rest of a magnitude with `precision` digits, in fixed
    notation where the exponent of the first digit is below `bound`, else in scientific notation. -/
def generalParts (alternate : Bool) (mark : Char) (num den precision bound : Nat) : Text × Text :=
  let (_, e) := rounded num den precision
  if -4 ≤ e ∧ e < bound then
    let places := ((precision : Int) - 1 - e).toNat
    let (whole, part) := fixedParts alternate (Double.roundDiv (num * Nat.pow 10 places) den) places
    (whole, if alternate then part else trimZeros part)
  else scientificParts alternate (!alternate) mark num den (precision - 1)

/-- The digits before the point and the rest of a finite magnitude in one of the notations of
    fractions. -/
def fractionParts? (spec : FormatSpec) (kind : Char) (num den : Nat) : Option (Text × Text) :=
  let p := spec.precision.getD 6
  let digits := max p 1
  match kind with
  | 'f' | 'F' => some (fixedParts spec.alternate (Double.roundDiv (num * Nat.pow 10 p) den) p)
  | 'e' => some (scientificParts spec.alternate false 'e' num den p)
  | 'E' => some (scientificParts spec.alternate false 'E' num den p)
  | 'g' | 'n' => some (generalParts spec.alternate 'e' num den digits digits)
  | 'G' => some (generalParts spec.alternate 'E' num den digits digits)
  | '%' =>
    match Double.ofRatio false (num * 100) den with
    | .finite _ m e =>
      let (num, den) := Double.ratio m e
      let (whole, part) := fixedParts spec.alternate (Double.roundDiv (num * Nat.pow 10 p) den) p
      some (whole, part ++ ['%'])
    | _ => some ([], "inf%".toList)
  | _ => none

/-- A finite number in its field, from its digits before the point and the rest. -/
def fraction (spec : FormatSpec) (negative : Bool) (whole part : Text) : Text :=
  let isZero := (whole ++ part.takeWhile fun c => c.isDigit || c == '.').all fun c =>
    c == '0' || c == '.'
  number spec (negative && !(spec.plainZero && isZero)) [] whole part 3

/-- The shortest digits of a number with a point in them. -/
def withPoint (whole part : Text) : Text × Text :=
  (whole, if part.head? = some '.' then part else '.' :: part)

/-- The digits before the point and the rest of a magnitude without a notation: the fewest digits,
    or those that a precision asks for, of which at least one stands after the point. -/
def plainParts (spec : FormatSpec) (m : Nat) (e : Int) : Text × Text :=
  match spec.precision with
  | some p =>
    let (num, den) := Double.ratio m e
    let digits := max p 1
    let (whole, part) := generalParts spec.alternate 'e' num den digits (digits - 1)
    (whole, if part = [] then ['.', '0'] else part)
  | none =>
    let t := (Double.finite false m e).text
    let (whole, part) := (t.takeWhile Char.isDigit, t.dropWhile Char.isDigit)
    if spec.alternate then withPoint whole part else (whole, part)

/-- The base and the mark of a notation of integers. -/
def base? : Char → Option (Nat × Text)
  | 'd' | 'n' => some (10, [])
  | 'b' => some (2, ['0', 'b'])
  | 'o' => some (8, ['0', 'o'])
  | 'x' => some (16, ['0', 'x'])
  | 'X' => some (16, ['0', 'X'])
  | _ => none

/-- Whether digits may be grouped in a notation, with the size of a group. -/
def groupSize? (spec : FormatSpec) (kind : Char) : Option Nat :=
  match spec.group with
  | none => some 3
  | some sep =>
    if "defgEG%F".toList.contains kind then some 3
    else if sep = '_' && "boxX".toList.contains kind then some 4
    else none

/-- What an integer becomes. -/
inductive IntField where
  | field (text : Text)
  | refused
  | noCharacter
  /-- The integer is beyond the numbers that can be written as fractions. -/
  | tooLarge

/-- An integer in its field. -/
def integer (spec : FormatSpec) (i : Int) : IntField :=
  let kind := spec.kind.getD 'd'
  match groupSize? spec kind with
  | none => .refused
  | some size =>
    if kind = 'c' then
      if spec.precision.isSome || spec.plainZero || spec.sign.isSome || spec.alternate then .refused
      else if i < 0 ∨ i > 0x10FFFF then .noCharacter
      else .field (number spec false [] [] [Char.ofNat i.toNat] 3)
    else
      match base? kind with
      | some (base, mark) =>
        if spec.precision.isSome || spec.plainZero then .refused
        else
          let ds := Text.digits base Text.digitChar i.natAbs
          let ds := if kind = 'X' then ds.map Char.toUpper else ds
          .field (number spec (decide (i < 0)) (if spec.alternate then mark else []) ds [] size)
      | none =>
        match Double.ofInt i with
        | .finite negative m e =>
          let (num, den) := Double.ratio m e
          match fractionParts? spec kind num den with
          | some (whole, part) => .field (fraction spec negative whole part)
          | none => .refused
        | _ => if "eEfFgG%".toList.contains kind then .tooLarge else .refused

/-- The word for a number that is not finite, in the notation asked for. -/
def word? (kind : Option Char) (word : Text) : Option Text :=
  match kind with
  | none | some 'e' | some 'f' | some 'g' | some 'n' => some word
  | some 'E' | some 'F' | some 'G' => some (word.map Char.toUpper)
  | some '%' => some (word ++ ['%'])
  | some _ => none

/-- A double-precision number in its field. -/
def double? (spec : FormatSpec) (x : Double) : Option Text :=
  if (groupSize? spec (spec.kind.getD 'g')).isNone then none
  else
    match x with
    | .finite negative m e =>
      let (num, den) := Double.ratio m e
      let parts :=
        match spec.kind with
        | some kind => fractionParts? spec kind num den
        | none => some (plainParts spec m e)
      parts.map fun (whole, part) => fraction spec negative whole part
    | .infinite negative =>
      (word? spec.kind "inf".toList).map fun w => number spec negative [] [] w 3
    | .nan => (word? spec.kind "nan".toList).map fun w => number spec false [] [] w 3

end FormatSpec

end JspLayout
