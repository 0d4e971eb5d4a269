import JspLayout.Text.Digit

/-! Text as bytes in UTF-8.

    Bytes are read one at a time. A first byte announces how many follow and in which range the next
    one lies; a byte outside its range, or the end of the bytes while some are owed, is an error
    that tells where the character began and how much of it was read. -/

namespace JspLayout

/-- The content of a file. -/
abbrev Bytes := List UInt8

namespace Utf8

/-- The bytes of a text. -/
def encode (s : Text) : Bytes := s.flatMap String.utf8EncodeChar

/-- A character of which bytes are still owed. -/
structure Pending where
  /-- Where the character begins. -/
  start : Nat
  first : UInt8
  /-- The bytes read so far. -/
  taken : Nat
  /-- The bytes owed after the next one. -/
  more : Nat
  /-- The range of the next byte. -/
  low : Nat
  high : Nat
  /-- The value of the bits read so far. -/
  value : Nat

/-- What is wrong with bytes. -/
inductive Problem where
  | invalidStart
  | invalidContinuation
  | cutShort
  deriving DecidableEq, Repr

/-- The bytes that stand for no character: where they begin, the first of them, and their number. -/
structure DecodeError where
  problem : Problem
  start : Nat
  first : UInt8
  length : Nat
  deriving DecidableEq

def Problem.text : Problem → String
  | .invalidStart => "invalid start byte"
  | .invalidContinuation => "invalid continuation byte"
  | .cutShort => "unexpected end of data"

/-- The wording of an error. -/
def DecodeError.message (e : DecodeError) : String :=
  let number (n : Nat) : String := String.ofList (Text.ofNat n)
  let place :=
    if e.length = 1 then
      "byte 0x" ++ String.ofList (Text.hex 2 e.first.toNat) ++ " in position " ++ number e.start
    else "bytes in position " ++ number e.start ++ "-" ++ number (e.start + e.length - 1)
  "'utf-8' codec can't decode " ++ place ++ ": " ++ e.problem.text

/-- What a first byte announces, unless it is a character by itself. -/
def lead? (start : Nat) (b : UInt8) : Option Pending :=
  let n := b.toNat
  if 0xC2 ≤ n ∧ n ≤ 0xDF then some ⟨start, b, 1, 0, 0x80, 0xBF, n - 0xC0⟩
  else if n = 0xE0 then some ⟨start, b, 1, 1, 0xA0, 0xBF, 0⟩
  else if n = 0xED then some ⟨start, b, 1, 1, 0x80, 0x9F, 0xD⟩
  else if 0xE1 ≤ n ∧ n ≤ 0xEF then some ⟨start, b, 1, 1, 0x80, 0xBF, n - 0xE0⟩
  else if n = 0xF0 then some ⟨start, b, 1, 2, 0x90, 0xBF, 0⟩
  else if n = 0xF4 then some ⟨start, b, 1, 2, 0x80, 0x8F, 4⟩
  else if 0xF1 ≤ n ∧ n ≤ 0xF3 then some ⟨start, b, 1, 2, 0x80, 0xBF, n - 0xF0⟩
  else none

/-- The text of the bytes from position `pos` on, after the bytes of a pending character. -/
def decodeFrom (pos : Nat) : Option Pending → Bytes → Except DecodeError Text
  | none, [] => .ok []
  | some p, [] => .error ⟨.cutShort, p.start, p.first, p.taken⟩
  | none, b :: bytes =>
    if b.toNat < 0x80 then
      (decodeFrom (pos + 1) none bytes).map fun s => Char.ofNat b.toNat :: s
    else
      match lead? pos b with
      | none => .error ⟨.invalidStart, pos, b, 1⟩
      | some p => decodeFrom (pos + 1) (some p) bytes
  | some p, b :: bytes =>
    if p.low ≤ b.toNat ∧ b.toNat ≤ p.high then
      let value := p.value * 0x40 + (b.toNat - 0x80)
      match p.more with
      | 0 => (decodeFrom (pos + 1) none bytes).map fun s => Char.ofNat value :: s
      | more + 1 =>
        decodeFrom (pos + 1) (some ⟨p.start, p.first, p.taken + 1, more, 0x80, 0xBF, value⟩) bytes
    else .error ⟨.invalidContinuation, p.start, p.first, p.taken⟩

/-- The text of bytes. -/
def decode (bytes : Bytes) : Except DecodeError Text := decodeFrom 0 none bytes

/-- The number of bytes of a text. -/
def size (s : Text) : Nat := (encode s).length

end Utf8

/-- The text with every line ended by a line feed alone. -/
def Text.unixLines : Text → Text
  | [] => []
  | '\r' :: '\n' :: s => '\n' :: unixLines s
  | '\r' :: s => '\n' :: unixLines s
  | c :: s => c :: unixLines s

end JspLayout
