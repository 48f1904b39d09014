import Z80.Assembly.Layout
import Z80.Proofs.Assembly.Symbols
import Z80.Proofs.Catalog.Unambiguous
import Z80.Proofs.Result

/-!
# What the first pass reads

The first pass goes from layout to layout.  Each line first defines its name and then places its
statement; the layout between the two is the one under which the statement is understood.

## Main definitions

* `Z80.Layout.Reads` — one line between two layouts.
* `Z80.Layout.Run` — the lines between two layouts, up to the first `end`.

## Main results

* `Z80.Layout.readLine_eq_ok_iff`, `Z80.Layout.readLines_eq_ok_iff` — these are what the first pass
  reads.
* `Z80.Layout.Reads.symbols_extends`, `Z80.Layout.Run.symbols_extends` — reading on only adds names.
* `Z80.Layout.Reads.mem_symbols`, `Z80.Layout.Run.mem_symbols` — where symbols are defined.
-/

namespace Z80

open Source (Statement)

/-- Operands of source instructions have the shapes of their texts. -/
lemma isShaped_operandsOf (texts : List String) :
    ∀ operand ∈ operandsOf texts, operand.IsShaped :=
  Operand.isShaped_of_mem_map texts

namespace Layout

/-- The line `line` of a text, which leads from the layout `before` to `after`; `named` is the
layout in which its name, if it has one, is defined. -/
structure Reads (before : Layout) (number : Nat) (text : String) (named : Layout)
    (line : PreparedLine) (after : Layout) : Prop where
  defined : ∃ parts, Source.Line.ofText text = .ok parts ∧
    before.define number parts.definition = .ok named ∧
    Statement.ofText parts.statement = .ok line.statement
  number_eq : line.number = number
  source_eq : line.source = String.ofList (Text.trimEnd text.toList)
  placed : (named.keep line).place line.statement = .ok after

/-- The lines of texts between two layouts.  The first pass stops behind an `end`. -/
inductive Run : (before : Layout) → (number : Nat) → List String → List PreparedLine →
    (after : Layout) → Prop
  | nil {before : Layout} {number : Nat} : Run before number [] [] before
  | stop {before named after : Layout} {number : Nat} {text : String} {more : List String}
      {line : PreparedLine} (hline : before.Reads number text named line after)
      (hstop : line.statement = .stop) : Run before number (text :: more) [line] after
  | cons {before named after last : Layout} {number : Nat} {text : String} {more : List String}
      {line : PreparedLine} {lines : List PreparedLine}
      (hline : before.Reads number text named line after) (hstop : line.statement ≠ .stop)
      (hmore : Run after (number + 1) more lines last) :
      Run before number (text :: more) (line :: lines) last

/-! ### One line -/

/-- A line that is read defines its name and places its statement. -/
theorem readLine_eq_ok_iff {before after : Layout} {number : Nat} {text : String}
    {statement : Statement} :
    before.readLine number text = .ok (after, statement) ↔
      ∃ named line, before.Reads number text named line after ∧ line.statement = statement := by
  constructor
  · intro h
    obtain ⟨parts, hparts, h⟩ := bind_eq_ok_iff.1 h
    obtain ⟨named, hnamed, h⟩ := bind_eq_ok_iff.1 h
    obtain ⟨found, hfound, h⟩ := bind_eq_ok_iff.1 h
    obtain ⟨last, hplaced, h⟩ := bind_eq_ok_iff.1 h
    obtain ⟨rfl, rfl⟩ := Prod.mk.inj (Except.ok.inj h)
    exact ⟨named, ⟨number, String.ofList (Text.trimEnd text.toList), found⟩,
      ⟨⟨parts, hparts, hnamed, hfound⟩, rfl, rfl, hplaced⟩, rfl⟩
  · rintro ⟨named, ⟨number, source, statement⟩,
      ⟨⟨parts, hparts, hnamed, hfound⟩, rfl, rfl, hplaced⟩, rfl⟩
    exact bind_eq_ok_iff.2 ⟨parts, hparts, bind_eq_ok_iff.2 ⟨named, hnamed,
      bind_eq_ok_iff.2 ⟨statement, hfound, bind_eq_ok_iff.2 ⟨after, hplaced, rfl⟩⟩⟩⟩

section Name

variable {layout named : Layout} {number : Nat}

/-- A new name changes nothing but the names. -/
lemma name_eq_ok {kind : Symbol.Kind} {name : String} {value : UInt16}
    (h : layout.name number kind name value = .ok named) :
    ∃ symbols, layout.symbols.define ⟨name, value, number, kind⟩ = .ok symbols ∧
      named = { layout with symbols } := by
  unfold Layout.name at h
  cases hdefine : layout.symbols.define ⟨name, value, number, kind⟩ with
  | error previous => simp [hdefine] at h
  | ok symbols => exact ⟨symbols, rfl, by simpa [hdefine, eq_comm] using h⟩

/-- A definition changes nothing but the names. -/
lemma define_eq_ok {definition : Option Source.Definition}
    (h : layout.define number definition = .ok named) :
    named = layout ∨ ∃ symbol : Symbol, layout.symbols.define symbol = .ok named.symbols ∧
      named = { layout with symbols := named.symbols } ∧ symbol.line = number ∧
      (symbol.kind = .label → symbol.value = layout.segments.location) := by
  match definition with
  | none => exact .inl (Except.ok.inj h).symm
  | some (.label name) =>
    obtain ⟨symbols, hdefine, rfl⟩ := name_eq_ok h
    exact .inr ⟨_, hdefine, rfl, rfl, fun _ => rfl⟩
  | some (.constant name text) =>
    obtain ⟨value, -, h⟩ := bind_eq_ok_iff.1 h
    obtain ⟨symbols, hdefine, rfl⟩ := name_eq_ok h
    exact .inr ⟨_, hdefine, rfl, rfl, fun hkind => by simp at hkind⟩

end Name

/-- A statement changes neither the names nor the lines. -/
lemma place_eq_ok {layout after : Layout} {statement : Statement}
    (h : layout.place statement = .ok after) :
    after.symbols = layout.symbols ∧ after.lines = layout.lines := by
  cases statement with
  | empty | stop | segment | bytes | words =>
    obtain rfl := Except.ok.inj h
    exact ⟨rfl, rfl⟩
  | origin text | space text =>
    obtain ⟨value, -, h⟩ := bind_eq_ok_iff.1 h
    obtain rfl := Except.ok.inj h
    exact ⟨rfl, rfl⟩
  | instruction word texts =>
    simp only [place] at h
    split at h
    · obtain rfl := Except.ok.inj h
      exact ⟨rfl, rfl⟩
    · simp at h

namespace Reads

variable {before named after : Layout} {number : Nat} {text : String} {line : PreparedLine}
  (h : before.Reads number text named line after)

include h

/-- A definition moves no location counter. -/
lemma segments_named : named.segments = before.segments := by
  obtain ⟨parts, -, hdefine, -⟩ := h.defined
  rcases define_eq_ok hdefine with rfl | ⟨symbol, -, heq, -⟩
  · rfl
  · rw [heq]

/-- A line is read in one way. -/
lemma after_unique {named' after' : Layout} {line' : PreparedLine}
    (h' : before.Reads number text named' line' after') : after = after' := by
  have hread := readLine_eq_ok_iff.2 ⟨named, line, h, rfl⟩
  have hread' := readLine_eq_ok_iff.2 ⟨named', line', h', rfl⟩
  exact (Prod.mk.inj (Except.ok.inj (hread.symm.trans hread'))).1

/-- The line is kept behind all others. -/
lemma lines_after : after.lines = before.lines.push line := by
  rw [(place_eq_ok h.placed).2]
  obtain ⟨parts, -, hdefine, -⟩ := h.defined
  rcases define_eq_ok hdefine with rfl | ⟨symbol, -, heq, -⟩
  · rfl
  · rw [heq]
    rfl

/-- The names behind a line are those under which its statement is understood. -/
lemma symbols_after : after.symbols = named.symbols :=
  (place_eq_ok h.placed).1

/-- Reading a line only adds names. -/
lemma symbols_extends : after.symbols.Extends before.symbols := by
  rw [h.symbols_after]
  obtain ⟨parts, -, hdefine, -⟩ := h.defined
  rcases define_eq_ok hdefine with rfl | ⟨symbol, hsymbol, -⟩
  · exact .refl _
  · exact SymbolTable.define_extends hsymbol

/-- A symbol behind a line was there before, or the line defines it; if it is a label then as its
location. -/
lemma mem_symbols {symbol : Symbol} (hmem : symbol ∈ after.symbols.symbols) :
    symbol ∈ before.symbols.symbols ∨
      symbol.line = number ∧ (symbol.kind = .label → symbol.value = before.segments.location) := by
  rw [h.symbols_after] at hmem
  obtain ⟨parts, -, hdefine, -⟩ := h.defined
  rcases define_eq_ok hdefine with rfl | ⟨new, hnew, -, hline, hlabel⟩
  · exact .inl hmem
  · rw [SymbolTable.symbols_define hnew, List.mem_append, List.mem_singleton] at hmem
    rcases hmem with hmem | rfl
    · exact .inl hmem
    · exact .inr ⟨hline, hlabel⟩

end Reads

/-! ### All lines -/

/-- The first pass reads the lines of a text up to the first `end`. -/
theorem readLines_eq_ok_iff {after : Layout} : ∀ {texts : List String} {before : Layout}
    {number : Nat}, before.readLines number texts = .ok after ↔
      ∃ lines, Run before number texts lines after
  | [], before, number => by
    constructor
    · intro h
      obtain rfl := Except.ok.inj h
      exact ⟨[], .nil⟩
    · rintro ⟨_, ⟨⟩⟩
      rfl
  | text :: more, before, number => by
    constructor
    · intro h
      unfold readLines at h
      split at h
      · simp at h
      · next next hline =>
        obtain ⟨named, line, hreads, hstop⟩ := readLine_eq_ok_iff.1 hline
        obtain rfl := Except.ok.inj h
        exact ⟨[line], .stop hreads hstop⟩
      · next next statement hstop hline =>
        obtain ⟨named, line, hreads, rfl⟩ := readLine_eq_ok_iff.1 hline
        obtain ⟨lines, hrun⟩ := readLines_eq_ok_iff.1 h
        exact ⟨line :: lines, .cons hreads hstop hrun⟩
    · rintro ⟨_, hrun⟩
      cases hrun with
      | stop hline hstop =>
        rw [readLines, readLine_eq_ok_iff.2 ⟨_, _, hline, hstop⟩]
      | cons hline hstop hmore =>
        rw [readLines, readLine_eq_ok_iff.2 ⟨_, _, hline, rfl⟩]
        split
        · next heq => simp at heq
        · next heq => simp_all
        · next heq =>
          obtain ⟨rfl, rfl⟩ := Prod.mk.inj (Except.ok.inj heq)
          exact readLines_eq_ok_iff.2 ⟨_, hmore⟩

namespace Run

variable {before after : Layout} {number : Nat} {texts : List String} {lines : List PreparedLine}

/-- The lines that are read are kept behind all others. -/
lemma lines_after (h : Run before number texts lines after) :
    after.lines.toList = before.lines.toList ++ lines := by
  induction h with
  | nil => simp
  | stop hline => simp [hline.lines_after]
  | cons hline _ _ ih => simp [ih, hline.lines_after]

/-- Reading lines only adds names. -/
lemma symbols_extends (h : Run before number texts lines after) :
    after.symbols.Extends before.symbols := by
  induction h with
  | nil => exact .refl _
  | stop hline => exact hline.symbols_extends
  | cons hline _ _ ih => exact ih.trans hline.symbols_extends

/-- A symbol behind lines was there before, or one of the lines defines it. -/
lemma mem_symbols (h : Run before number texts lines after) {symbol : Symbol}
    (hmem : symbol ∈ after.symbols.symbols) :
    symbol ∈ before.symbols.symbols ∨
      number ≤ symbol.line ∧ symbol.line < number + lines.length := by
  induction h with
  | nil => exact .inl hmem
  | stop hline =>
    rcases hline.mem_symbols hmem with hbefore | ⟨hnumber, -⟩
    · exact .inl hbefore
    · exact .inr (by simp only [List.length_singleton]; omega)
  | cons hline _ _ ih =>
    simp only [List.length_cons]
    rcases ih hmem with hafter | hrange
    · rcases hline.mem_symbols hafter with hbefore | ⟨hnumber, -⟩
      · exact .inl hbefore
      · exact .inr (by omega)
    · exact .inr (by omega)

/-- Two portions of lines are read one behind the other if there is no `end` in the first. -/
lemma append {between : Layout} {more : List String} {lines' : List PreparedLine}
    (h : Run before number texts lines between)
    (hstop : ∀ line ∈ lines, line.statement ≠ .stop)
    (h' : Run between (number + texts.length) more lines' after) :
    Run before number (texts ++ more) (lines ++ lines') after := by
  induction h with
  | nil => exact h'
  | stop _ hend => exact absurd hend (hstop _ List.mem_cons_self)
  | @cons before named between last number text texts line lines hline hne _ ih =>
    refine .cons hline hne (ih (fun line hmem => hstop line (List.mem_cons_of_mem _ hmem)) ?_)
    rw [List.length_cons] at h'
    rwa [Nat.add_right_comm, Nat.add_assoc]

end Run

end Layout

end Z80
