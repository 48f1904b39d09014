/-!
# Lines of a source text

A line ends at a line feed, and a carriage return right before that line feed belongs to the line
end.  A last line without a line feed keeps a carriage return it may end with, and a text that
ends with a line feed has no empty line after it.

## Main definitions

* `Z80.Text.lines` — the lines of a text, without their ends.
-/

namespace Z80.Text

/-- The characters without a carriage return at their end. -/
def dropReturn (cs : List Char) : List Char :=
  if cs.getLast? = some '\r' then cs.dropLast else cs

/-- The lines that start with the characters read so far, given last first, and go on with `cs`. -/
def linesFrom : (read cs : List Char) → List (List Char)
  | [], [] => []
  | c :: cs, [] => [(c :: cs).reverse]
  | read, c :: cs =>
    if c = '\n' then dropReturn read.reverse :: linesFrom [] cs else linesFrom (c :: read) cs

/-- The lines of a text, without the line feeds and carriage returns that end them. -/
def lines (s : String) : List String :=
  (linesFrom [] s.toList).map String.ofList

end Z80.Text
