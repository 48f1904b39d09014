/-!
# Quoted literals in source lines

A comment sign, a colon or a comma inside a quoted literal has no meaning of its own.  A literal
starts at a single or double quote and ends at the next quote of the same kind.  The apostrophe
right behind the letters `af`, in any case, belongs to the name of the shadow register and starts
no literal; which letters stand there is asked of the line as it is, literals included.

## Main definitions

* `Z80.Source.Reading` — what has to be known of the characters read so far.
* `Z80.Source.marked` — the characters of a line, each with the mark whether it stands alone,
  outside literals and no quote that delimits one.
* `Z80.Source.splitAtMark?` — a line cut at the first unquoted occurrence of a character.
-/

namespace Z80.Source

/-- What the characters read so far say about the next one. -/
structure Reading where
  /-- The quote that ends the literal being read, if one is. -/
  quote : Option Char
  /-- The last two characters, the nearer one last. -/
  before : Option Char × Option Char

namespace Reading

/-- The reading of a line at its start. -/
def start : Reading := ⟨none, none, none⟩

/-- Whether the last two characters are `af`, in any case. -/
def isAfterAf (r : Reading) : Bool :=
  r.before.1.map Char.toLower = some 'a' && r.before.2.map Char.toLower = some 'f'

/-- Whether a character is a quote that starts a literal here, if none is being read. -/
def opens (r : Reading) (c : Char) : Bool :=
  c = '\x22' || (c = '\x27' && !r.isAfterAf)

/-- Whether a character stands outside literals and delimits none. -/
def isPlain (r : Reading) (c : Char) : Bool :=
  r.quote.isNone && !r.opens c

/-- The reading behind a character. -/
def next (r : Reading) (c : Char) : Reading where
  quote :=
    match r.quote with
    | some q => if c = q then none else some q
    | none => if r.opens c then some c else none
  before := (r.before.2, some c)

end Reading

/-- Characters with the mark whether they stand outside literals. -/
def markedFrom (r : Reading) : List Char → List (Char × Bool)
  | [] => []
  | c :: cs => (c, r.isPlain c) :: markedFrom (r.next c) cs

/-- The characters of a line with the mark whether they stand outside literals. -/
def marked (line : List Char) : List (Char × Bool) :=
  markedFrom .start line

/-- The characters in front of the first marked occurrence of `c` and those behind it. -/
def splitAtMark? (c : Char) : List (Char × Bool) → Option (List Char × List Char)
  | [] => none
  | (d, isPlain) :: rest =>
    if isPlain && d = c then some ([], rest.map Prod.fst)
    else (splitAtMark? c rest).map fun (before, after) => (d :: before, after)

/-- The characters of a line in front of the first unquoted `c` and those behind it. -/
def splitAtUnquoted? (c : Char) (line : List Char) : Option (List Char × List Char) :=
  splitAtMark? c (marked line)

end Z80.Source
