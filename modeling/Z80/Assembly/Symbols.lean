import Z80.Expr.Eval
import Z80.Text.Fold

/-!
# Symbols

Names and what they stand for, in the order of their definitions.  Names are equal up to the case
of their letters, and each is defined once.

## Main definitions

* `Z80.Symbol` — a name, its value and its definition.
* `Z80.SymbolTable` — the symbols defined so far, with `Z80.SymbolTable.find?` and
  `Z80.SymbolTable.define`.
* `Z80.SymbolTable.scope` — the values of the names in expressions.
-/

namespace Z80

/-- What a name was defined as. -/
inductive Symbol.Kind where
  /-- The location of a line. -/
  | label
  /-- The value of an expression. -/
  | constant
  deriving DecidableEq, Repr

/-- A name with its value. -/
structure Symbol where
  /-- The name as it is spelled in its definition. -/
  name : String
  value : UInt16
  /-- The line of the definition, from 1. -/
  line : Nat
  kind : Symbol.Kind
  deriving DecidableEq, Repr

/-- The symbols in the order of their definitions, each beside its name in lower case. -/
structure SymbolTable where
  entries : Array (String × Symbol)
  deriving DecidableEq, Repr

namespace SymbolTable

/-- No symbols. -/
def empty : SymbolTable := ⟨#[]⟩

/-- The symbols in the order of their definitions. -/
def symbols (table : SymbolTable) : List Symbol :=
  table.entries.toList.map Prod.snd

/-- The symbol with a name, whatever the case of its letters. -/
def find? (table : SymbolTable) (name : String) : Option Symbol :=
  let folded := Text.lower name
  (table.entries.find? fun entry => entry.1 == folded).map Prod.snd

/-- The table with one more symbol, or the symbol that has the name already. -/
def define (table : SymbolTable) (symbol : Symbol) : Except Symbol SymbolTable :=
  match table.find? symbol.name with
  | some previous => .error previous
  | none => .ok ⟨table.entries.push (Text.lower symbol.name, symbol)⟩

/-- The value of a name. -/
def value? (table : SymbolTable) (name : String) : Option UInt16 :=
  (table.find? name).map Symbol.value

/-- The values of names in an expression at a location. -/
def scope (table : SymbolTable) (here : UInt16) : Expr.Scope :=
  ⟨table.value?, here⟩

end SymbolTable

end Z80
