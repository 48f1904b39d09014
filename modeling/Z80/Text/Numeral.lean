import Z80.Text.Hex

/-!
# Numerals of bytes and words

Numbers are written so that they read back: hexadecimal with `h` behind, and with `0` in front
where the first digit is a letter.

## Main definitions

* `Z80.Text.byteNumeral`, `Z80.Text.wordNumeral` — the numeral of a byte and of a word.
-/

namespace Z80.Text

/-- Hexadecimal digits as a numeral. -/
def numeralOf (digits : List Char) : String :=
  String.ofList ((if digits.head?.any Char.isAlpha then '0' :: digits else digits) ++ ['h'])

/-- A byte as a numeral. -/
def byteNumeral (b : UInt8) : String :=
  numeralOf (hexDigits 2 b.toNat)

/-- A word as a numeral. -/
def wordNumeral (w : UInt16) : String :=
  numeralOf (hexDigits 4 w.toNat)

example : byteNumeral 0x05 = "05h" ∧ byteNumeral 0xFF = "0FFh" ∧ wordNumeral 0x1234 = "1234h" := by
  decide

end Z80.Text
