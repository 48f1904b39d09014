/-!
# Fixed-width hexadecimal

Bytes are written with two capital hexadecimal digits and words with four, so that columns of
them line up.

## Main definitions

* `Z80.Text.hexByte`, `Z80.Text.hexWord` — the digits of a byte and of a word.
-/

namespace Z80.Text

/-- The capital hexadecimal digit of a number below sixteen. -/
def hexDigit (n : Nat) : Char :=
  Char.ofNat (if n < 10 then 48 + n else 55 + n)

/-- The lowest `width` hexadecimal digits of a number, most significant first. -/
def hexDigits : (width : Nat) → Nat → List Char
  | 0, _ => []
  | width + 1, n => hexDigits width (n / 16) ++ [hexDigit (n % 16)]

/-- A byte as two capital hexadecimal digits. -/
def hexByte (b : UInt8) : String :=
  String.ofList (hexDigits 2 b.toNat)

/-- A word as four capital hexadecimal digits. -/
def hexWord (w : UInt16) : String :=
  String.ofList (hexDigits 4 w.toNat)

example : hexByte 0x0A = "0A" ∧ hexWord 0xFE9 = "0FE9" := by decide

end Z80.Text
