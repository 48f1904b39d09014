/-!
# Numerals

A numeral is a word that starts with a digit.  Its radix shows in its spelling: `0x` in front or
`h` behind for hexadecimal, `b` behind for binary if all other digits are binary, and decimal
otherwise.  A word after `$` is hexadecimal throughout.  Numbers are 64-bit two's complement, and
a numeral beyond the largest of them denotes nothing rather than a wrapped value.

## Main definitions

* `Z80.Expr.readDigits` — the value of a digit string in a radix, by Horner's rule.
* `Z80.Expr.numeral?`, `Z80.Expr.hexNumeral?` — the value of a numeral, if it has one.
-/

namespace Z80.Expr

/-- The characters of words: letters, digits, `_`, `.`, `?` and `@`. -/
def isWordChar (c : Char) : Bool :=
  c.isAlphanum || c = '_' || c = '.' || c = '?' || c = '@'

/-- The value of a digit or letter as a digit, whatever the radix. -/
def digitValue? (c : Char) : Option Nat :=
  if c.isDigit then some (c.toNat - 48)
  else if c.isAlpha then some (c.toLower.toNat - 87)
  else none

/-- The value of a digit in a radix. -/
def digit? (radix : Nat) (c : Char) : Option Nat :=
  (digitValue? c).filter (· < radix)

/-- Whether a character is a hexadecimal digit. -/
def isHexDigit (c : Char) : Bool :=
  (digit? 16 c).isSome

/-- The value of the digits after those that are worth `value`. -/
def readDigits (radix : Nat) (value : Nat) : List Char → Option Nat
  | [] => some value
  | c :: cs =>
    match digit? radix c with
    | some d => readDigits radix (value * radix + d) cs
    | none => none

/-- The number that a non-empty digit string denotes, if 64 bits hold it. -/
def number? (radix : Nat) (digits : List Char) : Option Int64 :=
  if digits.isEmpty then none
  else
    match readDigits radix 0 digits with
    | some value => if value < 0x8000000000000000 then some (Int64.ofNat value) else none
    | none => none

/-- Whether a character is a binary digit. -/
def isBinaryDigit (c : Char) : Bool :=
  c = '0' || c = '1'

/-- The radix and the digits of a numeral in lower case. -/
def splitRadix (word : List Char) : Nat × List Char :=
  match word with
  | '0' :: 'x' :: digits => (16, digits)
  | _ =>
    if word.getLast? = some 'h' then (16, word.dropLast)
    else if 1 < word.length && word.getLast? = some 'b' && word.dropLast.all isBinaryDigit then
      (2, word.dropLast)
    else (10, word)

/-- The value of a word that starts with a digit. -/
def numeral? (word : List Char) : Option Int64 :=
  let (radix, digits) := splitRadix (word.map Char.toLower)
  number? radix digits

/-- The value of a word after `$`. -/
def hexNumeral? (word : List Char) : Option Int64 :=
  number? 16 word

end Z80.Expr
