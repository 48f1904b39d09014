/-!
# Tokens of an expression

An operand or a directive argument is an expression over numbers, names and `$`.  Reading it
starts with its tokens, which carry decoded values: what a numeral is worth and how a name is
folded is settled before any grammar applies.

## Main definitions

* `Z80.Expr.Punct` — operators and parentheses.
* `Z80.Expr.Lexeme` — what a token is; `Z80.Expr.Token` — a lexeme and its column.
* `Z80.Expr.Lexeme.text` — the spelling of a lexeme in messages.
-/

namespace Z80.Expr

/-- Operators and parentheses. -/
inductive Punct where
  | plus | minus | star | slash | ampersand | pipe | opening | closing
  deriving DecidableEq, Repr

namespace Punct

/-- The character of an operator or parenthesis. -/
def char : Punct → Char
  | plus => '+'
  | minus => '-'
  | star => '*'
  | slash => '/'
  | ampersand => '&'
  | pipe => '|'
  | opening => '('
  | closing => ')'

/-- All operators and parentheses. -/
def all : List Punct := [plus, minus, star, slash, ampersand, pipe, opening, closing]

/-- The operator or parenthesis written with a character. -/
def ofChar? (c : Char) : Option Punct :=
  all.find? fun p => p.char = c

/-- Reading the character of an operator gives that operator. -/
theorem ofChar?_char (p : Punct) : ofChar? p.char = some p := by
  cases p <;> decide

end Punct

/-- What a token is: a number, a name in lower case, `$`, or an operator or parenthesis. -/
inductive Lexeme where
  | number (value : Int64)
  | name (folded : String)
  | here
  | punct (p : Punct)
  deriving DecidableEq, Repr

/-- The spelling of a lexeme in a message; a number is written in decimal. -/
def Lexeme.text : Lexeme → String
  | number value => toString value.toInt
  | name folded => folded
  | here => "$"
  | punct p => String.singleton p.char

/-- A lexeme and the column it starts at, counted in characters from 0. -/
structure Token where
  lexeme : Lexeme
  column : Nat
  deriving DecidableEq, Repr

end Z80.Expr
