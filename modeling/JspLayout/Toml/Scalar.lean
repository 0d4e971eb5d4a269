import JspLayout.Settings.SizeLimit
import JspLayout.Settings.Value

/-! The values of TOML that hold no others: strings, numbers, dates and times.

    Each reader takes a text and gives what it read with the text after it. -/

namespace JspLayout.Toml

/-- Why a document is refused. -/
inductive Refusal where
  | malformed
  /-- An integer with more digits than can be read. -/
  | tooManyDigits (digits : Nat)
  deriving DecidableEq, Repr

/-- Control characters other than the tab stand nowhere but at line ends. -/
def isControl (c : Char) : Bool := (c.toNat < 0x20 && c != '\t') || c.toNat == 0x7F

/-! ### Strings -/

/-- The value of a hexadecimal digit. -/
def hexDigit? (c : Char) : Option Nat :=
  if c.isDigit then some (c.toNat - 0x30)
  else if 'a' ≤ c ∧ c ≤ 'f' then some (c.toNat - 0x61 + 10)
  else if 'A' ≤ c ∧ c ≤ 'F' then some (c.toNat - 0x41 + 10)
  else none

/-- The character with the given code in hexadecimal digits, if there is one. -/
def hexChar? (ds : Text) : Option Char := do
  let values ← ds.mapM hexDigit?
  let n := values.foldl (fun n d => n * 16 + d) 0
  if n.isValidChar then some (Char.ofNat n) else none

/-- The character that a letter after a backslash stands for. -/
def escaped? (c : Char) : Option Char :=
  match c with
  | 'b' => some '\x08'
  | 't' => some '\t'
  | 'n' => some '\n'
  | 'f' => some '\x0c'
  | 'r' => some '\r'
  | '"' => some '"'
  | '\\' => some '\\'
  | _ => none

/-- A string in double quotes on one line, after its opening quote. -/
def basic? : Text → Option (Text × Text)
  | [] => none
  | '"' :: s => some ([], s)
  | '\\' :: 'u' :: a :: b :: c :: d :: s => do
    let x ← hexChar? [a, b, c, d]
    (basic? s).map fun (t, r) => (x :: t, r)
  | '\\' :: 'U' :: a :: b :: c :: d :: e :: f :: g :: h :: s => do
    let x ← hexChar? [a, b, c, d, e, f, g, h]
    (basic? s).map fun (t, r) => (x :: t, r)
  | '\\' :: c :: s => do
    let x ← escaped? c
    (basic? s).map fun (t, r) => (x :: t, r)
  | c :: s => if isControl c then none else (basic? s).map fun (t, r) => (c :: t, r)

/-- A string in three double quotes, after them. After a backslash at the end of a line blanks and
    line ends are passed over (`skipping`). -/
def longBasic? (skipping : Bool) : Text → Option (Text × Text)
  | [] => none
  | '"' :: '"' :: '"' :: s => some ([], s)
  | '\\' :: 'u' :: a :: b :: c :: d :: s => do
    let x ← hexChar? [a, b, c, d]
    (longBasic? false s).map fun (t, r) => (x :: t, r)
  | '\\' :: 'U' :: a :: b :: c :: d :: e :: f :: g :: h :: s => do
    let x ← hexChar? [a, b, c, d, e, f, g, h]
    (longBasic? false s).map fun (t, r) => (x :: t, r)
  | '\\' :: c :: s =>
    if c = '\n' then longBasic? true s
    else if isIndent c then
      if (s.dropWhile isIndent).head? = some '\n' then longBasic? true s else none
    else do
      let x ← escaped? c
      (longBasic? false s).map fun (t, r) => (x :: t, r)
  | c :: s =>
    if skipping && (isIndent c || c == '\n') then longBasic? true s
    else if isControl c && c != '\n' then none
    else (longBasic? false s).map fun (t, r) => (c :: t, r)

/-- A string in single quotes on one line, after its opening quote. -/
def literal? (s : Text) : Option (Text × Text) := do
  let (body, rest) ← Text.cut? ['\''] s
  if body.any isControl then none else some (body, rest)

/-- A string in three single quotes, after them. -/
def longLiteral? (s : Text) : Option (Text × Text) := do
  let (body, rest) ← Text.cut? ['\'', '\'', '\''] s
  if body.any fun c => isControl c && c != '\n' then none else some (body, rest)

/-- Up to two quotes right before the closing three belong to a string. -/
def withQuotes (quote : Char) (body rest : Text) : Text × Text :=
  let extra := (rest.take 2).takeWhile (· == quote)
  (body ++ extra, rest.drop extra.length)

/-- A line end right after the opening quotes does not count. -/
def dropBreak : Text → Text
  | '\n' :: s => s
  | s => s

/-- A string of any kind. -/
def string? : Text → Option (Text × Text)
  | '"' :: '"' :: '"' :: s =>
    (longBasic? false (dropBreak s)).map fun (body, rest) => withQuotes '"' body rest
  | '"' :: s => basic? s
  | '\'' :: '\'' :: '\'' :: s =>
    (longLiteral? (dropBreak s)).map fun (body, rest) => withQuotes '\'' body rest
  | '\'' :: s => literal? s
  | _ => none

/-! ### Dates and times -/

/-- A number of exactly `n` digits. -/
def fixed? (n : Nat) (s : Text) : Option (Text × Text) :=
  let ds := s.take n
  if ds.length = n ∧ ds.all Char.isDigit then some (ds, s.drop n) else none

/-- A number of two digits in a range. -/
def within? (low high : Nat) (s : Text) : Option (Text × Text) := do
  let (ds, s) ← fixed? 2 s
  let n := Double.digitsValue ds
  if low ≤ n ∧ n ≤ high then some (ds, s) else none

/-- The number of days of a month. -/
def monthDays (year month : Nat) : Nat :=
  if month = 2 then if year % 4 = 0 ∧ (year % 100 ≠ 0 ∨ year % 400 = 0) then 29 else 28
  else if month = 4 ∨ month = 6 ∨ month = 9 ∨ month = 11 then 30
  else 31

/-- The fraction of a second, in six digits, where it is not zero. -/
def fraction (s : Text) : Text × Text :=
  match s with
  | '.' :: r =>
    let ds := r.takeWhile Char.isDigit
    if ds = [] then ([], s)
    else
      let micros := (ds ++ List.replicate 6 '0').take 6
      (if micros.all (· == '0') then [] else '.' :: micros, r.drop ds.length)
  | _ => ([], s)

/-- A time of day. -/
def time? (s : Text) : Option (Text × Text) := do
  let (hour, s) ← within? 0 23 s
  let s ← Text.after? [':'] s
  let (minute, s) ← within? 0 59 s
  let s ← Text.after? [':'] s
  let (second, s) ← within? 0 59 s
  let (part, s) := fraction s
  some (hour ++ ':' :: minute ++ ':' :: second ++ part, s)

/-- The distance from universal time, where it is given. -/
def offset (s : Text) : Text × Text :=
  let distance? (sign : Char) (r : Text) : Option (Text × Text) := do
    let (hour, r) ← within? 0 23 r
    let r ← Text.after? [':'] r
    let (minute, r) ← within? 0 59 r
    let isZero := (hour ++ minute).all (· == '0')
    some ((if isZero then '+' else sign) :: hour ++ ':' :: minute, r)
  match s with
  | 'Z' :: r | 'z' :: r => ("+00:00".toList, r)
  | '+' :: r => (distance? '+' r).getD ([], s)
  | '-' :: r => (distance? '-' r).getD ([], s)
  | _ => ([], s)

/-- A date with what follows it, and whether there is such a day. -/
def date? (s : Text) : Option (Text × Bool × Text) := do
  let (year, s) ← fixed? 4 s
  let s ← Text.after? ['-'] s
  let (month, s) ← within? 1 12 s
  let s ← Text.after? ['-'] s
  let (day, s) ← within? 1 31 s
  let value := Double.digitsValue
  let exists? := value year ≠ 0 && value day ≤ monthDays (value year) (value month)
  some (year ++ '-' :: month ++ '-' :: day, exists?, s)

/-- A date, or a date and a time. -/
def moment? (s : Text) : Option (Text × Bool × Text) := do
  let (date, exists?, s) ← date? s
  match s with
  | c :: r =>
    if c = 'T' ∨ c = 't' ∨ c = ' ' then
      match time? r with
      | none => some (date, exists?, s)
      | some (time, r) =>
        let (distance, r) := offset r
        some (date ++ ' ' :: time ++ distance, exists?, r)
    else some (date, exists?, s)
  | [] => some (date, exists?, s)

/-! ### Numbers -/

/-- Digits that single underscores may divide, without the underscores, after a first digit. -/
def digitTail (isDigit : Char → Bool) : Text → Text × Text
  | '_' :: c :: s =>
    if isDigit c then
      let (ds, r) := digitTail isDigit s
      (c :: ds, r)
    else ([], '_' :: c :: s)
  | c :: s =>
    if isDigit c then
      let (ds, r) := digitTail isDigit s
      (c :: ds, r)
    else ([], c :: s)
  | [] => ([], [])

/-- Digits that single underscores may divide. -/
def digitRun? (isDigit : Char → Bool) : Text → Option (Text × Text)
  | c :: s =>
    if isDigit c then
      let (ds, r) := digitTail isDigit s
      some (c :: ds, r)
    else none
  | [] => none

/-- An integer with the base given in front. -/
def basedInteger? (s : Text) : Option (Int × Text) :=
  let digits? (base : Nat) (s : Text) : Option (Int × Text) := do
    let isDigit := fun c => (hexDigit? c).any fun d => decide (d < base)
    let (ds, r) ← digitRun? isDigit s
    some (ds.foldl (fun (n : Int) c => n * base + (hexDigit? c).getD 0) 0, r)
  match s with
  | '0' :: 'x' :: r => digits? 16 r
  | '0' :: 'o' :: r => digits? 8 r
  | '0' :: 'b' :: r => digits? 2 r
  | _ => none

/-- The digits before the point: a zero alone, or digits that begin with none. -/
def wholeDigits? (s : Text) : Option (Text × Text) :=
  match s with
  | '0' :: r => some (['0'], r)
  | _ => digitRun? Char.isDigit s

/-- The point and the digits after it, or nothing. -/
def fractionDigits (s : Text) : Text × Text :=
  match s with
  | '.' :: r =>
    match digitRun? Char.isDigit r with
    | some (ds, r) => ('.' :: ds, r)
    | none => ([], s)
  | _ => ([], s)

/-- The exponent, or nothing. -/
def exponentDigits (s : Text) : Text × Text :=
  let (mark, r) :=
    match s with
    | 'e' :: '+' :: r | 'E' :: '+' :: r => (['e', '+'], r)
    | 'e' :: '-' :: r | 'E' :: '-' :: r => (['e', '-'], r)
    | 'e' :: r | 'E' :: r => (['e'], r)
    | _ => ([], s)
  if mark = [] then ([], s)
  else
    match digitRun? Char.isDigit r with
    | some (ds, r) => (mark ++ ds, r)
    | none => ([], s)

/-- A decimal integer or a number with a point or an exponent. -/
def decimal? (s : Text) : Option (Except Refusal Value × Text) := do
  let (negative, r) :=
    match s with
    | '-' :: r => (true, r)
    | '+' :: r => (false, r)
    | r => (false, r)
  let (whole, r) ← wholeDigits? r
  let (part, r) := fractionDigits r
  let (exponent, r) := exponentDigits r
  if part = [] ∧ exponent = [] then
    if whole.length > maxDigits then some (.error (.tooManyDigits whole.length), r)
    else
      let n : Int := Double.digitsValue whole
      some (.ok (.int (if negative then -n else n)), r)
  else
    let x := (Double.magnitude? negative (whole ++ part ++ exponent)).getD .nan
    some (.ok (.double x), r)

/-- Infinities and numbers that are none. -/
def special? (s : Text) : Option (Double × Text) :=
  let named (negative : Bool) (s : Text) : Option (Double × Text) :=
    match s with
    | 'i' :: 'n' :: 'f' :: r => some (.infinite negative, r)
    | 'n' :: 'a' :: 'n' :: r => some (.nan, r)
    | _ => none
  match s with
  | '+' :: r => named false r
  | '-' :: r => named true r
  | _ => named false s

/-! ### All of them -/

/-- A value that holds no others. -/
def scalar (s : Text) : Except Refusal (Value × Text) :=
  match s with
  | 't' :: 'r' :: 'u' :: 'e' :: r => .ok (.bool true, r)
  | 'f' :: 'a' :: 'l' :: 's' :: 'e' :: r => .ok (.bool false, r)
  | _ =>
    if s.head? = some '"' ∨ s.head? = some '\'' then
      match string? s with
      | some (t, r) => .ok (.text t, r)
      | none => .error .malformed
    else
      match moment? s with
      | some (t, exists?, r) => if exists? then .ok (.moment t, r) else .error .malformed
      | none =>
        match time? s with
        | some (t, r) => .ok (.moment t, r)
        | none =>
          match basedInteger? s with
          | some (i, r) => .ok (.int i, r)
          | none =>
            match decimal? s with
            | some (v, r) => v.map fun v => (v, r)
            | none =>
              match special? s with
              | some (x, r) => .ok (.double x, r)
              | none => .error .malformed

end JspLayout.Toml
