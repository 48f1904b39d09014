import Z80.Proofs.Assembly.Threads
import Z80.Proofs.Catalog.Compared

/-!
# Reading lines before a name is defined

The first pass evaluates the values of constants, the operands of origins and spaces, and what an
instruction compares with numbers.  Lines that mention a name in none of these places are read
without this name as they are read with it, to layouts that differ in nothing but its value.

## Main definitions

* `Z80.Clause.IsFree` — lines whose names and directives do not depend on a name.
* `Z80.Source.Statement.compares` — instructions that are chosen by the value of a name.
* `Z80.Layout.Lacks` — a layout in which nothing but a name is missing.

## Main results

* `Z80.Layout.Lacks.exists_place`, `Z80.Layout.Lacks.place_ne_ok` — statements without the name.
* `Z80.Layout.Reads.exists_lacking`, `Z80.Layout.Reads.compares_eq_false` — lines without the name.
* `Z80.Layout.Run.exists_lacking`, `Z80.Layout.Run.compares_eq_false` — all lines without the name.
-/

namespace Z80

open Source (Definition Statement)

/-! ### Lines and a name -/

namespace Source

/-- Whether the value of a constant mentions a name. -/
def Definition.mentions (name : String) : Definition → Bool
  | label _ => false
  | constant _ text => Expr.mentions name text

/-- Whether the operand of an origin or a space mentions a name. -/
def Statement.mentions (name : String) : Statement → Bool
  | .origin text | .space text => Expr.mentions name text
  | _ => false

/-- Whether an instruction compares an operand that mentions a name with numbers. -/
def Statement.compares (name : String) : Statement → Bool
  | .instruction word texts =>
    (comparedOperands word (operandsOf texts)).any fun operand => Expr.mentions name operand.text
  | _ => false

end Source

/-- A line that does not end its text, and whose constant, origin or space does not mention a
name. -/
structure Clause.IsFree (name : String) (clause : Clause) : Prop where
  not_stop : clause.statement ≠ .stop
  definition : ∀ d ∈ clause.definition, d.mentions name = false
  statement : clause.statement.mentions name = false

instance (name : String) : DecidablePred (Clause.IsFree name) := fun clause =>
  decidable_of_iff
    (clause.statement ≠ .stop ∧ (∀ d ∈ clause.definition, d.mentions name = false) ∧
      clause.statement.mentions name = false)
    ⟨fun h => ⟨h.1, h.2.1, h.2.2⟩, fun h => ⟨h.not_stop, h.definition, h.statement⟩⟩

/-! ### Layouts without a name -/

namespace Layout

/-- The layout `early` has all that `layout` has but the value of a name. -/
structure Lacks (early : Layout) (name : String) (layout : Layout) : Prop where
  segments_eq : early.segments = layout.segments
  start?_eq : early.start? = layout.start?
  value?_eq : ∀ other, early.symbols.value? other =
    if Text.lower other = Text.lower name then none else layout.symbols.value? other
  defined : layout.symbols.value? name ≠ none

variable {early layout named after : Layout} {name : String} {number number' : Nat}

namespace Lacks

/-- Expressions are evaluated without the name. -/
lemma scope_eq (h : early.Lacks name layout) : early.scope = layout.scope.without name := by
  have hvalue : early.symbols.value? =
      fun other => if Text.lower other = Text.lower name then none
        else layout.symbols.value? other := funext h.value?_eq
  rw [Layout.scope, SymbolTable.scope, hvalue, h.segments_eq]
  rfl

/-- The value of the name does not matter to a word that does not mention it. -/
lemma evaluateWord_eq (h : early.Lacks name layout) {text : String}
    (hfree : Expr.mentions name text = false) :
    Expr.evaluateWord early.scope text = Expr.evaluateWord layout.scope text := by
  rw [h.scope_eq, Expr.evaluateWord_without hfree]

/-- Another name can be defined. -/
lemma exists_name (h : early.Lacks name layout) {kind : Symbol.Kind} {other : String}
    {value : UInt16} (hnamed : layout.name number kind other value = .ok named) :
    ∃ early', early.name number' kind other value = .ok early' ∧
      early'.Lacks name named := by
  obtain ⟨symbols, hdefine, rfl⟩ := name_eq_ok hnamed
  have hnew := SymbolTable.value?_eq_none hdefine
  dsimp only at hnew
  have hne : Text.lower other ≠ Text.lower name := by
    intro heq
    exact h.defined ((layout.symbols.value?_congr heq).symm.trans hnew)
  obtain ⟨symbols', hdefine'⟩ := @SymbolTable.exists_define early.symbols
    ⟨other, value, number', kind⟩ (by rw [h.value?_eq, if_neg hne, hnew])
  refine ⟨{ early with symbols := symbols' }, by rw [Layout.name, hdefine'],
    h.segments_eq, h.start?_eq, fun found => ?_, ?_⟩
  · rw [SymbolTable.value?_define hdefine', SymbolTable.value?_define hdefine, h.value?_eq]
    by_cases hname : Text.lower found = Text.lower name
    · simp [hname, hne]
    · simp [hname]
  · rw [SymbolTable.value?_define hdefine, if_neg hne]
    exact h.defined

/-- A definition that does not mention the name is one without it. -/
lemma exists_define (h : early.Lacks name layout) {definition : Option Definition}
    (hfree : ∀ d ∈ definition, d.mentions name = false)
    (hdefine : layout.define number definition = .ok named) (number' : Nat) :
    ∃ early', early.define number' definition = .ok early' ∧ early'.Lacks name named := by
  match definition with
  | none =>
    obtain rfl := Except.ok.inj hdefine
    exact ⟨early, rfl, h⟩
  | some (.label other) =>
    rw [Layout.define, h.segments_eq]
    exact h.exists_name hdefine
  | some (.constant other text) =>
    obtain ⟨value, hvalue, hnamed⟩ := bind_eq_ok_iff.1 hdefine
    obtain ⟨early', hnamed', hlacks⟩ := h.exists_name hnamed
    rw [← h.evaluateWord_eq (hfree _ rfl)] at hvalue
    exact ⟨early', bind_eq_ok_iff.2 ⟨value, hvalue, hnamed'⟩, hlacks⟩

/-- A line is kept. -/
lemma keep (h : early.Lacks name layout) (line line' : PreparedLine) :
    (early.keep line).Lacks name (layout.keep line') :=
  ⟨h.segments_eq, h.start?_eq, h.value?_eq, h.defined⟩

/-- The location moves on. -/
lemma advance (h : early.Lacks name layout) (count : UInt16) :
    (early.advance count).Lacks name (layout.advance count) :=
  ⟨by rw [Layout.advance, Layout.advance, h.segments_eq], h.start?_eq, h.value?_eq, h.defined⟩

/-- **A statement is placed without the name** if it does not compare an operand that mentions
it. -/
theorem exists_place (h : early.Lacks name layout) {statement : Statement}
    (hfree : statement.mentions name = false) (hcompares : statement.compares name = false)
    (hplace : layout.place statement = .ok after) :
    ∃ early', early.place statement = .ok early' ∧ early'.Lacks name after := by
  cases statement with
  | empty | stop =>
    obtain rfl := Except.ok.inj hplace
    exact ⟨early, rfl, h⟩
  | segment target =>
    obtain rfl := Except.ok.inj hplace
    exact ⟨_, rfl, by rw [h.segments_eq], h.start?_eq, h.value?_eq, h.defined⟩
  | bytes | words =>
    obtain rfl := Except.ok.inj hplace
    exact ⟨_, rfl, h.advance _⟩
  | origin text =>
    obtain ⟨address, haddress, hplaced⟩ := bind_eq_ok_iff.1 hplace
    obtain rfl := Except.ok.inj hplaced
    rw [← h.evaluateWord_eq hfree] at haddress
    exact ⟨_, bind_eq_ok_iff.2 ⟨address, haddress, rfl⟩, by rw [h.segments_eq],
      by rw [h.start?_eq], h.value?_eq, h.defined⟩
  | space text =>
    obtain ⟨size, hsize, hplaced⟩ := bind_eq_ok_iff.1 hplace
    obtain rfl := Except.ok.inj hplaced
    rw [← h.evaluateWord_eq hfree] at hsize
    exact ⟨_, bind_eq_ok_iff.2 ⟨size, hsize, rfl⟩, h.advance _⟩
  | instruction word texts =>
    simp only [Layout.place] at hplace ⊢
    split at hplace
    · next resolved hresolved =>
      obtain rfl := Except.ok.inj hplace
      have hresolved' := (resolve_without_eq_ok_iff (isShaped_operandsOf texts) hresolved).2
        ⟨rfl, by simpa [Statement.compares] using hcompares⟩
      rw [h.scope_eq, hresolved']
      exact ⟨_, rfl, h.advance _⟩
    · cases hplace

/-- **A statement cannot be placed without the name** if it compares an operand that mentions it. -/
theorem place_ne_ok (h : early.Lacks name layout) {statement : Statement}
    (hcompares : statement.compares name = true) (hplace : layout.place statement = .ok after)
    (early' : Layout) : early.place statement ≠ .ok early' := by
  cases statement with
  | instruction word texts =>
    simp only [Layout.place] at hplace ⊢
    split at hplace
    · next resolved hresolved =>
      intro hplace'
      split at hplace'
      · next found hfound =>
        rw [h.scope_eq, resolve_without_eq_ok_iff (isShaped_operandsOf texts) hresolved] at hfound
        obtain ⟨operand, hmem, hmentions⟩ := List.any_eq_true.1 hcompares
        simp [hfound.2 operand hmem] at hmentions
      · cases hplace'
    · cases hplace
  | empty | stop | segment | origin | bytes | words | space => cases hcompares

end Lacks

/-! ### Lines without a name -/

namespace Reads

variable {before : Layout} {text : String} {line line' : PreparedLine}
  (h : before.Reads number text named line after) (hlacks : early.Lacks name before)

include h

/-- A line that does not end its text has another statement. -/
lemma ne_stop (hfree : (Clause.ofText text).IsFree name) : line.statement ≠ .stop :=
  h.clause_ofText.1 ▸ hfree.not_stop

include hlacks

/-- **A line is read without the name** if it does not compare an operand that mentions it. -/
theorem exists_lacking (hfree : (Clause.ofText text).IsFree name)
    (hcompares : (Clause.ofText text).statement.compares name = false) (number' : Nat) :
    ∃ named' line' after', early.Reads number' text named' line' after' ∧
      line'.statement = line.statement ∧ after'.Lacks name after := by
  obtain ⟨parts, hparts, hdefine, hstatement⟩ := h.defined
  have hclause : Clause.ofText text = ⟨parts.definition, line.statement⟩ := by
    simp only [Clause.ofText, hparts, hstatement]
  rw [hclause] at hfree hcompares
  obtain ⟨named', hdefine', hnamed⟩ := hlacks.exists_define hfree.definition hdefine number'
  let line' : PreparedLine :=
    ⟨number', String.ofList (Text.trimEnd text.toList), line.statement⟩
  obtain ⟨after', hplaced', hafter⟩ :=
    (hnamed.keep line' line).exists_place hfree.statement hcompares h.placed
  exact ⟨named', line', after', ⟨⟨parts, hparts, hdefine', hstatement⟩, rfl, rfl, hplaced'⟩, rfl,
    hafter⟩

/-- **A line cannot be read without the name** if it compares an operand that mentions it. -/
theorem compares_eq_false (hfree : (Clause.ofText text).IsFree name) {named' after' : Layout}
    (h' : early.Reads number' text named' line' after') :
    (Clause.ofText text).statement.compares name = false := by
  obtain ⟨hstatement, hdefine⟩ := h.clause_ofText
  obtain ⟨hstatement', hdefine'⟩ := h'.clause_ofText
  obtain ⟨found, hfound, hlacks'⟩ := hlacks.exists_define hfree.definition hdefine number'
  obtain rfl := Except.ok.inj (hfound.symm.trans hdefine')
  rw [Bool.eq_false_iff, hstatement]
  intro hcompares
  refine (hlacks'.keep line' line).place_ne_ok hcompares h.placed after' ?_
  rw [← hstatement, hstatement']
  exact h'.placed

end Reads

namespace Run

variable {before : Layout} {texts : List String} {lines lines' : List PreparedLine}
  (h : Run before number texts lines after) (hlacks : early.Lacks name before)
  (hfree : ∀ text ∈ texts, (Clause.ofText text).IsFree name)

include h hlacks hfree

/-- **Lines are read without the name** if none of them compares an operand that mentions it.

**Proof sketch.** Induction on the lines.  Behind each of them the two layouts still have all but
the name in common. -/
theorem exists_lacking
    (hcompares : ∀ text ∈ texts, (Clause.ofText text).statement.compares name = false)
    (number' : Nat) :
    ∃ lines' after', Run early number' texts lines' after' ∧
      lines'.map PreparedLine.statement = lines.map PreparedLine.statement ∧
      after'.Lacks name after := by
  induction h generalizing early number' with
  | nil => exact ⟨[], early, .nil, rfl, hlacks⟩
  | stop hline hstop => exact absurd hstop (hline.ne_stop (hfree _ List.mem_cons_self))
  | cons hline hstop _ ih =>
    obtain ⟨hfirst, hothers⟩ := List.forall_mem_cons.1 hfree
    obtain ⟨hnone, hnones⟩ := List.forall_mem_cons.1 hcompares
    obtain ⟨named', line', next, hline', hstatement, hnext⟩ :=
      hline.exists_lacking hlacks hfirst hnone number'
    obtain ⟨lines', after', hrun, hstatements, hafter⟩ := ih hnext hothers hnones (number' + 1)
    refine ⟨line' :: lines', after', .cons hline' (hstatement ▸ hstop) hrun, ?_, hafter⟩
    rw [List.map_cons, List.map_cons, hstatement, hstatements]

omit hlacks in
/-- Lines of which none ends the text have no `end` among their statements. -/
lemma ne_stop : ∀ line ∈ lines, line.statement ≠ .stop := by
  induction h with
  | nil => simp
  | stop hline hstop => exact absurd hstop (hline.ne_stop (hfree _ List.mem_cons_self))
  | cons _ hstop _ ih => exact List.forall_mem_cons.2 ⟨hstop, ih (List.forall_mem_cons.1 hfree).2⟩

/-- **Lines cannot be read without the name** if one of them compares an operand that mentions
it. -/
theorem compares_eq_false {more : List String} {after' : Layout}
    (h' : Run early number' (texts ++ more) lines' after') :
    ∀ text ∈ texts, (Clause.ofText text).statement.compares name = false := by
  induction h generalizing early number' lines' with
  | nil => simp
  | stop hline hstop => exact absurd hstop (hline.ne_stop (hfree _ List.mem_cons_self))
  | cons hline hstop _ ih =>
    obtain ⟨hfirst, hothers⟩ := List.forall_mem_cons.1 hfree
    cases h' with
    | stop hline' hstop' => exact absurd hstop' (hline'.ne_stop hfirst)
    | cons hline' _ hmore =>
      have hnone := hline.compares_eq_false hlacks hfirst hline'
      obtain ⟨_, _, next, hfound, -, hnext⟩ := hline.exists_lacking hlacks hfirst hnone number'
      obtain rfl := hfound.after_unique hline'
      exact List.forall_mem_cons.2 ⟨hnone, ih hnext hothers hmore⟩

end Run

end Layout

end Z80
