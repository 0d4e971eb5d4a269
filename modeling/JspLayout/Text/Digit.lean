import JspLayout.Text.Search

/-! Decimal digits and the numbers written with them.

    Every decimal digit of Unicode belongs to a block of ten in ascending order, so a digit's value
    is its distance from the zero of its block. -/

namespace JspLayout

/-- The zeros of the blocks of decimal digits. -/
def digitZeros : List Nat :=
  [0x30, 0x660, 0x6F0, 0x7C0, 0x966, 0x9E6, 0xA66, 0xAE6, 0xB66, 0xBE6, 0xC66, 0xCE6, 0xD66,
    0xDE6, 0xE50, 0xED0, 0xF20, 0x1040, 0x1090, 0x17E0, 0x1810, 0x1946, 0x19D0, 0x1A80, 0x1A90,
    0x1B50, 0x1BB0, 0x1C40, 0x1C50, 0xA620, 0xA8D0, 0xA900, 0xA9D0, 0xA9F0, 0xAA50, 0xABF0, 0xFF10,
    0x104A0, 0x10D30, 0x11066, 0x110F0, 0x11136, 0x111D0, 0x112F0, 0x11450, 0x114D0, 0x11650,
    0x116C0, 0x11730, 0x118E0, 0x11950, 0x11C50, 0x11D50, 0x11DA0, 0x16A60, 0x16AC0, 0x16B50,
    0x1D7CE, 0x1D7D8, 0x1D7E2, 0x1D7EC, 0x1D7F6, 0x1E140, 0x1E2F0, 0x1E950, 0x1FBF0]

/-- The value of a decimal digit of any script. -/
def digitValue? (c : Char) : Option Nat :=
  (digitZeros.find? fun z => z ≤ c.toNat && c.toNat < z + 10).map fun z => c.toNat - z

namespace Text

/-- The digits of `n` in base `b`, most significant first. -/
def digits (b : Nat) (digit : Nat → Char) (n : Nat) : Text :=
  if n < b ∨ b < 2 then [digit n] else digits b digit (n / b) ++ [digit (n % b)]
termination_by n
decreasing_by exact Nat.div_lt_self (by omega) (by omega)

/-- The lower-case digit of value `d`, for `d` below 16. -/
def digitChar (d : Nat) : Char :=
  if d < 10 then Char.ofNat (0x30 + d) else Char.ofNat (0x61 + (d - 10))

/-- A natural number in decimal notation. -/
def ofNat (n : Nat) : Text := digits 10 digitChar n

/-- An integer in decimal notation. -/
def ofInt (i : Int) : Text := if i < 0 then '-' :: ofNat i.natAbs else ofNat i.natAbs

/-- A natural number in lower-case hexadecimal notation, with zeros up to `width` digits. -/
def hex (width n : Nat) : Text :=
  let ds := digits 16 digitChar n
  List.replicate (width - ds.length) '0' ++ ds

end Text

end JspLayout
