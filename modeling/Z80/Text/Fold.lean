/-!
# Letter case

Mnemonics, registers and symbols may be written in any case.  Folding is ASCII folding: a letter
beyond ASCII is equal to itself alone, because the case map of `Char` moves only `A` to `Z`.

## Main definitions

* `Z80.Text.lower` — a string with its ASCII capitals folded.
* `Z80.Text.sameName` — equality of two names up to that folding.
-/

namespace Z80.Text

/-- A string with the letters `A` to `Z` in lower case and all else as it stands. -/
def lower (s : String) : String :=
  String.ofList (s.toList.map Char.toLower)

/-- Two names are the same if they fold to the same string. -/
def sameName (s t : String) : Bool :=
  lower s == lower t

end Z80.Text
