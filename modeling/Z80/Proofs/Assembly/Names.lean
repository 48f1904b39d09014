import Mathlib.Data.List.Find
import Z80.Proofs.Assembly.Emission
import Z80.Proofs.Expr.Agreement

/-!
# What the names of a text denote

A name that an expression can mention denotes its symbol wherever it stands.  A line may also define
what no expression can mention: a number, an operator that is spelled as a word, or a text that is
read as several tokens.  Such a symbol is in the table, and no expression has anything to do with
it.

## Main definitions

* `Z80.SymbolTable.WellFormed` — tables in which each symbol is found by its name.
* `Z80.SymbolTable.erase` — a table without a symbol.

## Main results

* `Z80.SymbolTable.WellFormed.define` — definitions keep tables well-formed.
* `Z80.Layout.Run.wellFormed` — so the table of a text is well-formed.
* `Z80.SymbolTable.evaluate_erase` — no expression asks for a symbol whose name is no name.
* `Z80.assemble_names` — what the symbols of an assembled text denote in expressions.
-/

namespace Z80

open Z80.Expr (IsName IsIdentifier)

namespace SymbolTable

variable {table larger : SymbolTable} {symbol : Symbol}

/-- Names are found in lower case. -/
lemma find?_lower (table : SymbolTable) (name : String) :
    table.find? (Text.lower name) = table.find? name := by
  simp only [find?, Text.lower, String.toList_ofList, Text.map_toLower_map_toLower]

/-- Symbols stand beside their names in lower case, and each of them is found by its name. -/
structure WellFormed (table : SymbolTable) : Prop where
  key : ∀ entry ∈ table.entries, entry.1 = Text.lower entry.2.name
  find?_name : ∀ symbol ∈ table.symbols, table.find? symbol.name = some symbol

/-- The table of no symbols is well-formed. -/
lemma WellFormed.empty : SymbolTable.empty.WellFormed where
  key entry hentry := by simp [SymbolTable.empty] at hentry
  find?_name symbol hsymbol := by simp [SymbolTable.empty, symbols] at hsymbol

/-- **A definition keeps a table well-formed.** -/
theorem WellFormed.define (h : table.WellFormed) (hdefine : table.define symbol = .ok larger) :
    larger.WellFormed where
  key entry hentry := by
    rw [entries_define hdefine, Array.mem_push] at hentry
    rcases hentry with hold | rfl
    · exact h.key entry hold
    · rfl
  find?_name found hfound := by
    rw [symbols_define hdefine, List.mem_append, List.mem_singleton] at hfound
    rcases hfound with hold | rfl
    · exact define_extends hdefine _ _ (h.find?_name found hold)
    · rw [find?_define hdefine, if_pos rfl]

/-- The table without a symbol. -/
def erase (table : SymbolTable) (symbol : Symbol) : SymbolTable :=
  ⟨table.entries.filter fun entry => entry.2 ≠ symbol⟩

/-- Other names are found without the symbol. -/
lemma WellFormed.find?_erase (h : table.WellFormed) {name : String}
    (hname : Text.lower symbol.name ≠ Text.lower name) :
    (table.erase symbol).find? name = table.find? name := by
  simp only [find?, erase, ← Array.find?_toList, Array.toList_filter, List.find?_filter]
  congr 1
  refine List.find?_congr fun entry hentry => ?_
  have hkey := h.key entry (Array.mem_toList_iff.1 hentry)
  have hother (hfound : entry.1 = Text.lower name) : entry.2 ≠ symbol := by
    rintro rfl
    exact hname (hkey.symm.trans hfound)
  rw [Bool.eq_iff_iff, decide_eq_true_eq, decide_eq_true_eq, beq_iff_eq]
  exact and_iff_right_of_imp hother

/-- **No expression asks for a symbol whose name is no name.** -/
theorem WellFormed.evaluate_erase (h : table.WellFormed)
    (hname : ¬IsIdentifier symbol.name.toList) (here : UInt16) (text : String) :
    Expr.evaluate (table.scope here) text =
      Expr.evaluate ((table.erase symbol).scope here) text := by
  refine Expr.evaluate_congr ?_ (fun name hword => ?_) text
  · rfl
  · have hne : Text.lower symbol.name ≠ Text.lower name := by
      intro heq
      rw [hword.lower_eq] at heq
      rw [← heq, Text.lower, String.toList_ofList] at hword
      exact hname (Expr.isName_map_toLower_iff.1 hword)
    simp only [scope, value?, h.find?_erase hne]

/-- **A symbol whose name is a name is what its name denotes.** -/
theorem WellFormed.evaluate_name (h : table.WellFormed) (hmem : symbol ∈ table.symbols)
    (hname : IsIdentifier symbol.name.toList) (here : UInt16) :
    Expr.evaluate (table.scope here) symbol.name = .ok (.ofNat symbol.value.toNat) := by
  refine Expr.evaluate_identifier hname ?_
  have hfound := h.find?_name symbol hmem
  rw [← find?_lower] at hfound
  exact Option.map_eq_some_iff.2 ⟨symbol, hfound, rfl⟩

end SymbolTable

/-! ### Texts -/

namespace Layout

variable {before named after : Layout} {number : Nat} {text : String} {line : PreparedLine}
  {texts : List String} {lines : List PreparedLine}

/-- A line that is read keeps the table well-formed. -/
lemma Reads.wellFormed (h : before.Reads number text named line after)
    (hbefore : before.symbols.WellFormed) : after.symbols.WellFormed := by
  rw [h.symbols_after]
  obtain ⟨parts, -, hdefine, -⟩ := h.defined
  rcases define_eq_ok hdefine with rfl | ⟨symbol, hsymbol, -⟩
  · exact hbefore
  · exact hbefore.define hsymbol

/-- **Lines that are read keep the table well-formed.** -/
theorem Run.wellFormed (h : Run before number texts lines after)
    (hbefore : before.symbols.WellFormed) : after.symbols.WellFormed := by
  induction h with
  | nil => exact hbefore
  | stop hline => exact hline.wellFormed hbefore
  | cons hline _ _ ih => exact ih (hline.wellFormed hbefore)

end Layout

/-- **What the symbols of an assembled text denote in expressions.**  If the name of a symbol is an
identifier then at every location it has the value of the symbol.  Any other name is mentioned by
no expression: every text is evaluated as it is without the symbol.

**Proof sketch.** The table is well-formed, line by line.  The names in the tokens of an expression
are identifiers in lower case, and an identifier is a token of its own. -/
theorem assemble_names {options : Assembly.Options} {source : String} {assembly : Assembly}
    (h : assemble options source = .ok assembly) {symbol : Symbol}
    (hmem : symbol ∈ assembly.symbols.symbols) (here : UInt16) :
    (IsIdentifier symbol.name.toList →
      Expr.evaluate (assembly.symbols.scope here) symbol.name =
        .ok (.ofNat symbol.value.toNat)) ∧
    (¬IsIdentifier symbol.name.toList → ∀ text,
      Expr.evaluate (assembly.symbols.scope here) text =
        Expr.evaluate ((assembly.symbols.erase symbol).scope here) text) := by
  obtain ⟨layout, image, hlayout, -, rfl⟩ := assemble_eq_ok_iff.1 h
  obtain ⟨lines, hrun⟩ := Layout.readLines_eq_ok_iff.1 hlayout
  have hwell := hrun.wellFormed .empty
  exact ⟨fun hname => hwell.evaluate_name hmem hname here,
    fun hname => hwell.evaluate_erase hname here⟩

/-- A label in capitals is denoted by its name, at whatever location. -/
theorem assemble_names_capitals : ∃ assembly, assemble {} "org 5\nSTART: nop" = .ok assembly ∧
    ⟨"START", 5, 2, .label⟩ ∈ assembly.symbols.symbols ∧
    Expr.evaluate (assembly.symbols.scope 9) "START" = .ok 5 := by
  obtain ⟨assembly, h⟩ :=
    exists_of_isOk (x := assemble {} "org 5\nSTART: nop") (by decide +kernel)
  have hsymbols : (assemble {} "org 5\nSTART: nop").map (·.symbols.symbols) =
      .ok [⟨"START", 5, 2, .label⟩] := by
    decide +kernel
  rw [h] at hsymbols
  have hmem : ⟨"START", 5, 2, .label⟩ ∈ assembly.symbols.symbols := by
    simp [Except.ok.inj hsymbols]
  have hname : IsIdentifier "START".toList :=
    ⟨⟨'S', by decide, by decide⟩, List.all_eq_true.1 (by decide), by decide, by decide⟩
  exact ⟨assembly, h, hmem, (assemble_names h hmem 9).1 hname⟩

/-- A line may define what no expression can mention: a text that is read as a sum has the value of
the sum, a text that is read as a number is this number, and an operator that is spelled as a word
is no operand. -/
theorem assemble_names_unmentionable : ∃ assembly,
    assemble {} "org 5\n1+2: nop\n8: nop\nand: nop" = .ok assembly ∧
    assembly.symbols.symbols =
      [⟨"1+2", 5, 2, .label⟩, ⟨"8", 6, 3, .label⟩, ⟨"and", 7, 4, .label⟩] ∧
    Expr.evaluate (assembly.symbols.scope 0) "1+2" = .ok 3 ∧
    Expr.evaluate (assembly.symbols.scope 0) "8" = .ok 8 ∧
    Expr.evaluate (assembly.symbols.scope 0) "and" = .error (.unexpectedToken "&" 0) := by
  obtain ⟨assembly, h⟩ :=
    exists_of_isOk (x := assemble {} "org 5\n1+2: nop\n8: nop\nand: nop") (by decide +kernel)
  have hfacts : (assemble {} "org 5\n1+2: nop\n8: nop\nand: nop").map (fun assembly =>
      (assembly.symbols.symbols, Expr.evaluate (assembly.symbols.scope 0) "1+2",
        Expr.evaluate (assembly.symbols.scope 0) "8",
        Expr.evaluate (assembly.symbols.scope 0) "and")) =
      .ok ([⟨"1+2", 5, 2, .label⟩, ⟨"8", 6, 3, .label⟩, ⟨"and", 7, 4, .label⟩],
        .ok 3, .ok 8, .error (.unexpectedToken "&" 0)) := by
    decide +kernel
  rw [h] at hfacts
  simp only [Except.map, Except.ok.injEq, Prod.mk.injEq] at hfacts
  exact ⟨assembly, h, hfacts⟩

end Z80
