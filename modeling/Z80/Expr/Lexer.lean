import Z80.Expr.Error
import Z80.Expr.Numeral
import Z80.Expr.Token
import Z80.Text.Blank

/-!
# Splitting an expression into tokens

Blanks separate tokens and are dropped.  Every other character starts a token: a digit a numeral,
`$` the location or a hexadecimal numeral, a quote a character literal, a word character a name,
and the rest must be an operator or a parenthesis.  The words `and` and `or`, in any case, are
the operators `&` and `|`.

## Main definitions

* `Z80.Expr.scan` — the token that starts with a character, and how much of what follows it takes.
* `Z80.Expr.tokensFrom`, `Z80.Expr.tokenize` — the tokens of a text.
-/

namespace Z80.Expr

/-- The lexeme of a word that starts with no digit. -/
def wordLexeme (word : List Char) : Lexeme :=
  let folded := String.ofList (word.map Char.toLower)
  if folded = "and" then .punct .ampersand
  else if folded = "or" then .punct .pipe
  else .name folded

/-- A character literal is one ASCII character between two equal quotes. -/
def scanQuoted (column : Nat) (quote : Char) (cs : List Char) : Except Error (Lexeme × Nat) :=
  match cs with
  | c :: close :: _ =>
    if close = quote && c.toNat < 128 then .ok (.number (Int64.ofNat c.toNat), 2)
    else .error (.invalidNumber (String.ofList (quote :: cs)) column)
  | _ => .error (.invalidNumber (String.ofList (quote :: cs)) column)

/-- A `$` alone is the location; hexadecimal digits right after it make it a numeral. -/
def scanDollar (column : Nat) (cs : List Char) : Except Error (Lexeme × Nat) :=
  match cs with
  | c :: _ =>
    if isHexDigit c then
      let word := cs.takeWhile isWordChar
      match hexNumeral? word with
      | some value => .ok (.number value, word.length)
      | none => .error (.invalidNumber (String.ofList ('$' :: word)) column)
    else .ok (.here, 0)
  | [] => .ok (.here, 0)

/-- The lexeme that starts with the character `c`, which is not blank, at a column, and the
number of characters of `cs` that belong to it. -/
def scan (column : Nat) (c : Char) (cs : List Char) : Except Error (Lexeme × Nat) :=
  if c.isDigit then
    let rest := cs.takeWhile isWordChar
    match numeral? (c :: rest) with
    | some value => .ok (.number value, rest.length)
    | none => .error (.invalidNumber (String.ofList (c :: rest)) column)
  else if c = '$' then scanDollar column cs
  else if c = '\x27' || c = '\x22' then scanQuoted column c cs
  else if isWordChar c then
    let rest := cs.takeWhile isWordChar
    .ok (wordLexeme (c :: rest), rest.length)
  else
    match Punct.ofChar? c with
    | some p => .ok (.punct p, 0)
    | none => .error (.unexpectedCharacter c column)

/-- The tokens of the characters from a column on. -/
def tokensFrom (column : Nat) : List Char → Except Error (List Token)
  | [] => .ok []
  | c :: cs =>
    if Text.isBlank c then tokensFrom (column + 1) cs
    else
      match scan column c cs with
      | .error fault => .error fault
      | .ok (lexeme, taken) =>
        match tokensFrom (column + 1 + taken) (cs.drop taken) with
        | .error fault => .error fault
        | .ok tokens => .ok (⟨lexeme, column⟩ :: tokens)
termination_by cs => cs.length
decreasing_by
  · simp
  · simp only [List.length_drop, List.length_cons]
    omega

/-- The tokens of a text, or the first fault from the left. -/
def tokenize (text : String) : Except Error (List Token) :=
  tokensFrom 0 text.toList

end Z80.Expr
