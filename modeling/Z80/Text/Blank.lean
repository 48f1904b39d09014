/-!
# Blank characters

Source text is Unicode, and what separates its words is the property `White_Space`: the control
characters tab to carriage return, the blank, and the spacing characters beyond ASCII.  Everything
that trims or skips blanks goes through this module.

## Main definitions

* `Z80.Text.isBlank` — membership in `White_Space`, read off the table of its ranges.
* `Z80.Text.trim`, `Z80.Text.trimmed` — a text without the blanks at its ends, on characters and
  on strings.

## Main results

* `Z80.Text.isBlank_of_isWhitespace` — the table covers the blanks of ASCII text.
-/

namespace Z80.Text

/-- The ranges of code points with the property `White_Space`, both ends included. -/
def blankRanges : List (Nat × Nat) :=
  [(0x09, 0x0D), (0x20, 0x20), (0x85, 0x85), (0xA0, 0xA0), (0x1680, 0x1680), (0x2000, 0x200A),
    (0x2028, 0x2029), (0x202F, 0x202F), (0x205F, 0x205F), (0x3000, 0x3000)]

/-- Whether a character has the property `White_Space`. -/
def isBlank (c : Char) : Bool :=
  blankRanges.any fun range => range.1 ≤ c.toNat && c.toNat ≤ range.2

/-- The characters from the first one that is not blank. -/
def trimStart (cs : List Char) : List Char :=
  cs.dropWhile isBlank

/-- The characters up to the last one that is not blank. -/
def trimEnd (cs : List Char) : List Char :=
  (cs.reverse.dropWhile isBlank).reverse

/-- The characters from the first to the last one that is not blank. -/
def trim (cs : List Char) : List Char :=
  trimEnd (trimStart cs)

/-- A string without the blanks at its two ends. -/
def trimmed (s : String) : String :=
  String.ofList (trim s.toList)

/-- The four blanks of ASCII text are among them. -/
theorem isBlank_of_isWhitespace (c : Char) (h : c.isWhitespace) : isBlank c := by
  simp only [Char.isWhitespace, Bool.or_eq_true, decide_eq_true_eq] at h
  rcases h with ((rfl | rfl) | rfl) | rfl <;> decide

/-- The property covers twenty-five code points. -/
example : (blankRanges.map fun range => range.2 + 1 - range.1).sum = 25 := rfl

end Z80.Text
