/-!
# Bytes as characters

Beside the bytes of data a listing shows the characters that they may stand for.

## Main definitions

* `Z80.Text.isPrintable` — whether a byte is the code of a character that can be shown.
* `Z80.Text.asciiText` — the characters of bytes, a point for those that cannot be shown.
-/

namespace Z80.Text

/-- Whether a byte is the code of a visible ASCII character or of the blank. -/
def isPrintable (b : UInt8) : Bool :=
  0x20 ≤ b && b ≤ 0x7E

/-- The character with a code. -/
def charOf (b : UInt8) : Char :=
  Char.ofNat b.toNat

/-- The characters with the given codes, and a point where a code cannot be shown. -/
def asciiText (bytes : List UInt8) : String :=
  String.ofList (bytes.map fun b => if isPrintable b then charOf b else '.')

end Z80.Text
