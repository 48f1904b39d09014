import Z80.Proofs.Assembly.Emission
import Z80.Proofs.Assembly.FoldedStatement

/-!
# Letter case does not matter

Two texts that differ only in letters outside literals are assembled to the same bytes, from the
same lines, and define the same names up to case.  This asks that all who read a line agree about
what a literal is; where they do not, the case of a letter may matter.

## Main definitions

* `Z80.SameSource` — texts that differ in letters outside literals, and in comments.
* `Z80.IsClearSource` — texts about whose literals all readers agree, up to the first `end`.
* `Z80.Symbol.Same`, `Z80.Layout.Same`, `Z80.Image.Same` — what such texts are read and written as.

## Main results

* `Z80.Layout.Reads.same`, `Z80.Layout.Run.same` — one line and all lines of the first pass.
* `Z80.Image.writeLine_same`, `Z80.Image.writeLines_same` — those of the second pass.
* `Z80.assemble_sameSource` — the assemblies.
* `Z80.case_matters_between_literals` — a text whose readers disagree.
-/

namespace Z80

open Z80.Expr (QuotesItself SameExpr)
open Source (Definition Line SameLine Statement foldText)

/-! ### Sources -/

/-- Whether two texts differ only in letters outside literals, and in comments, line by line. -/
def SameSource (source source' : String) : Prop :=
  List.Forall₂ SameLine (Text.lines source) (Text.lines source')

instance : DecidableRel SameSource := fun source source' =>
  inferInstanceAs (Decidable (List.Forall₂ SameLine (Text.lines source) (Text.lines source')))

namespace Source

/-- Whether the readers of a name that a line defines, and of its value, agree about their
literals. -/
def Definition.IsClear : Definition → Prop
  | .label _ => True
  | .constant name value => IsClosed name.toList ∧ ¬QuotesItself value.toList

instance : DecidablePred Definition.IsClear
  | .label _ => isTrue trivial
  | .constant name value =>
    inferInstanceAs (Decidable ((Reading.start.behind name.toList).quote = none ∧
      ¬QuotesItself value.toList))

/-- The name that a line defines and its statement, if it can be taken apart. -/
def parts? (text : String) : Option (Option Definition × Statement) :=
  match Line.ofText text with
  | .error _ => none
  | .ok line =>
    (Statement.ofText line.statement).toOption.map fun statement => (line.definition, statement)

/-- A line that is taken apart has these parts. -/
lemma parts?_eq_some {text : String} {line : Line} {statement : Statement}
    (hline : Line.ofText text = .ok line)
    (hstatement : Statement.ofText line.statement = .ok statement) :
    parts? text = some (line.definition, statement) := by
  rw [parts?, hline]
  simp only [hstatement, Except.toOption, Option.map_some]

/-- Whether the readers of a line agree about its literals. -/
def IsClearLine (text : String) : Prop :=
  ∀ parts ∈ parts? text, (∀ definition ∈ parts.1, definition.IsClear) ∧ parts.2.IsClear

/-- Whether a line ends its text. -/
def isEnd (text : String) : Bool :=
  (parts? text).any fun parts => parts.2 = .stop

/-- Whether the readers of lines agree about their literals, up to the first `end`. -/
def AreClear : List String → Prop
  | [] => True
  | text :: more => IsClearLine text ∧ (isEnd text = false → AreClear more)

instance : DecidablePred IsClearLine := fun text =>
  inferInstanceAs (Decidable (∀ parts ∈ parts? text,
    (∀ definition ∈ parts.1, definition.IsClear) ∧ parts.2.IsClear))

instance : DecidablePred AreClear := go
where
  go : DecidablePred AreClear
    | [] => isTrue trivial
    | text :: more =>
      have : Decidable (AreClear more) := go more
      inferInstanceAs (Decidable (IsClearLine text ∧ (isEnd text = false → AreClear more)))

end Source

/-- Whether the readers of a text agree about its literals, up to the first `end`. -/
def IsClearSource (source : String) : Prop :=
  Source.AreClear (Text.lines source)

instance : DecidablePred IsClearSource := fun source =>
  inferInstanceAs (Decidable (Source.AreClear (Text.lines source)))

/-! ### Symbols -/

/-- Two symbols whose names differ in letter case. -/
structure Symbol.Same (symbol symbol' : Symbol) : Prop where
  name : Text.lower symbol.name = Text.lower symbol'.name
  value : symbol.value = symbol'.value
  line : symbol.line = symbol'.line
  kind : symbol.kind = symbol'.kind

namespace SymbolTable

/-- Two tables whose names differ in letter case. -/
def Same (table table' : SymbolTable) : Prop :=
  List.Forall₂ (fun entry entry' => entry.1 = entry'.1 ∧ entry.2.Same entry'.2)
    table.entries.toList table'.entries.toList

variable {table table' larger : SymbolTable} {symbol symbol' : Symbol}

/-- The symbols of both tables, one by one. -/
lemma Same.symbols (h : table.Same table') :
    List.Forall₂ Symbol.Same table.symbols table'.symbols := by
  rw [SymbolTable.symbols, SymbolTable.symbols, List.forall₂_map_left_iff,
    List.forall₂_map_right_iff]
  exact h.imp fun _ _ hentry => hentry.2

/-- A name is found in both tables or in neither. -/
lemma Same.find? (h : table.Same table') (name : String) :
    Option.Rel Symbol.Same (table.find? name) (table'.find? name) := by
  rw [SymbolTable.find?, SymbolTable.find?, ← Array.find?_toList, ← Array.find?_toList]
  unfold Same at h
  generalize table.entries.toList = entries, table'.entries.toList = entries' at h
  induction h with
  | nil => exact .none
  | cons hentry _ ih =>
    rw [List.find?_cons, List.find?_cons, hentry.1]
    split
    · exact .some hentry.2
    · exact ih

/-- Names have the same values in expressions. -/
lemma Same.scope (h : table.Same table') (here : UInt16) :
    table.scope here = table'.scope here := by
  have hvalue : table.value? = table'.value? := by
    funext name
    have hfound := h.find? name
    rw [value?, value?]
    generalize table.find? name = found, table'.find? name = found' at hfound
    cases hfound with
    | some hsame => exact congrArg some hsame.value
    | none => rfl
  rw [SymbolTable.scope, SymbolTable.scope, hvalue]

/-- A name that can be defined in one table can be in the other. -/
lemma Same.define (h : table.Same table') (hsymbol : symbol.Same symbol')
    (hdefine : table.define symbol = .ok larger) :
    ∃ larger', table'.define symbol' = .ok larger' ∧ larger.Same larger' := by
  have hnew := find?_eq_none_of_define hdefine
  have hfold : table'.find? symbol'.name = table'.find? symbol.name := by
    rw [SymbolTable.find?, SymbolTable.find?, hsymbol.name]
  have hnew' : table'.find? symbol'.name = none := by
    have hfound := h.find? symbol.name
    rw [hnew] at hfound
    rw [hfold]
    generalize table'.find? symbol.name = found' at hfound
    cases hfound
    rfl
  refine ⟨_, by rw [SymbolTable.define, hnew'], ?_⟩
  rw [Same, entries_define hdefine, Array.toList_push, Array.toList_push]
  exact List.rel_append h (.cons ⟨hsymbol.name, hsymbol⟩ .nil)

end SymbolTable

/-! ### The first pass -/

/-- Two lines whose statements differ in letters outside literals. -/
structure PreparedLine.Same (line line' : PreparedLine) : Prop where
  number : line.number = line'.number
  statement : line.statement.Same line'.statement

namespace Layout

/-- Two layouts whose lines and names differ in letters outside literals. -/
structure Same (layout layout' : Layout) : Prop where
  segments : layout.segments = layout'.segments
  symbols : layout.symbols.Same layout'.symbols
  start? : layout.start? = layout'.start?
  lines : List.Forall₂ PreparedLine.Same layout.lines.toList layout'.lines.toList

variable {layout layout' after : Layout} {number : Nat}

/-- Names have the same values in both layouts. -/
lemma Same.scope (h : layout.Same layout') : layout.scope = layout'.scope := by
  rw [Layout.scope, Layout.scope, h.segments, h.symbols.scope]

/-- A word has the same value in both layouts. -/
lemma Same.evaluateWord (h : layout.Same layout') {text text' : String}
    (hsame : SameExpr text text') {word : UInt16}
    (hword : liftExpr (Expr.evaluateWord layout.scope text) = .ok word) :
    liftExpr (Expr.evaluateWord layout'.scope text') = .ok word := by
  rw [h.scope] at hword
  exact (toOption_eq_iff.1 (liftExpr_evaluateWord_congr hsame) word).1 hword

/-- A line is kept in both layouts. -/
lemma Same.keep (h : layout.Same layout') {line line' : PreparedLine} (hline : line.Same line') :
    (layout.keep line).Same (layout'.keep line') where
  segments := h.segments
  symbols := h.symbols
  start? := h.start?
  lines := by
    rw [Layout.keep, Layout.keep, Array.toList_push, Array.toList_push]
    exact List.rel_append h.lines (.cons hline .nil)

/-- A name that one layout can have the other can have in another case. -/
lemma Same.name (h : layout.Same layout') {kind : Symbol.Kind} {name name' : String}
    {value : UInt16} (hname : foldText name = foldText name')
    (hnamed : layout.name number kind name value = .ok after) :
    ∃ after', layout'.name number kind name' value = .ok after' ∧ after.Same after' := by
  obtain ⟨symbols, hdefine, rfl⟩ := name_eq_ok hnamed
  have hsymbol : Symbol.Same ⟨name, value, number, kind⟩ ⟨name', value, number, kind⟩ :=
    ⟨Source.lower_of_foldText_eq hname, rfl, rfl, rfl⟩
  obtain ⟨symbols', hdefine', hsame⟩ := h.symbols.define hsymbol hdefine
  exact ⟨{ layout' with symbols := symbols' }, by rw [Layout.name, hdefine'],
    h.segments, hsame, h.start?, h.lines⟩

/-- **A definition in another case** leads from one layout to the other. -/
theorem Same.define (h : layout.Same layout') {definition definition' : Option Definition}
    (hfold : definition.map Definition.fold = definition'.map Definition.fold)
    (hclear : ∀ d ∈ definition, d.IsClear) (hdefine : layout.define number definition = .ok after) :
    ∃ after', layout'.define number definition' = .ok after' ∧ after.Same after' := by
  match definition, definition' with
  | none, none =>
    obtain rfl := Except.ok.inj hdefine
    exact ⟨layout', rfl, h⟩
  | some (.label name), some (.label name') =>
    have hname : foldText name = foldText name' := Definition.label.inj (Option.some.inj hfold)
    have hnamed := h.name hname hdefine
    rwa [h.segments] at hnamed
  | some (.constant name text), some (.constant name' text') =>
    obtain ⟨hname, htext⟩ := Definition.constant.inj (Option.some.inj hfold)
    obtain ⟨-, hself⟩ := hclear _ rfl
    obtain ⟨value, hvalue, hnamed⟩ := bind_eq_ok_iff.1 hdefine
    obtain ⟨after', hnamed', hsame⟩ := h.name hname hnamed
    have hvalue' := h.evaluateWord ⟨hself, htext⟩ hvalue
    exact ⟨after', bind_eq_ok_iff.2 ⟨value, hvalue', hnamed'⟩, hsame⟩

/-- **A statement in another case** leads from one layout to the other. -/
theorem Same.place (h : layout.Same layout') {statement statement' : Statement}
    (hsame : statement.Same statement') (hplace : layout.place statement = .ok after) :
    ∃ after', layout'.place statement' = .ok after' ∧ after.Same after' := by
  have hadvance (count : UInt16) : (layout.advance count).Same (layout'.advance count) :=
    ⟨by rw [advance, advance, h.segments], h.symbols, h.start?, h.lines⟩
  cases hsame with
  | empty | stop =>
    obtain rfl := Except.ok.inj hplace
    exact ⟨layout', rfl, h⟩
  | segment target =>
    obtain rfl := Except.ok.inj hplace
    exact ⟨_, rfl, by rw [h.segments], h.symbols, h.start?, h.lines⟩
  | origin htext =>
    obtain ⟨address, haddress, hplaced⟩ := bind_eq_ok_iff.1 hplace
    obtain rfl := Except.ok.inj hplaced
    refine ⟨_, bind_eq_ok_iff.2 ⟨address, h.evaluateWord htext haddress, rfl⟩, ?_, h.symbols, ?_,
      h.lines⟩
    · rw [h.segments]
    · rw [h.start?]
  | bytes hoperands =>
    obtain rfl := Except.ok.inj hplace
    rw [byteCounts_congr hoperands]
    exact ⟨_, rfl, hadvance _⟩
  | words hoperands =>
    obtain rfl := Except.ok.inj hplace
    rw [hoperands.length_eq]
    exact ⟨_, rfl, hadvance _⟩
  | space htext =>
    obtain ⟨size, hsize, hplaced⟩ := bind_eq_ok_iff.1 hplace
    obtain rfl := Except.ok.inj hplaced
    exact ⟨_, bind_eq_ok_iff.2 ⟨size, h.evaluateWord htext hsize, rfl⟩, hadvance size⟩
  | instruction hword hoperands =>
    simp only [Layout.place] at hplace ⊢
    split at hplace
    · next resolved hresolved =>
      obtain rfl := Except.ok.inj hplace
      rw [h.scope, toOption_eq_iff.1 (resolve_congr (Operand.forall₂_same hoperands) hword)
        resolved] at hresolved
      exact ⟨_, by rw [hresolved], hadvance _⟩
    · cases hplace

/-- The word of an instruction that is placed is a mnemonic, and these are spelled without
quotes. -/
lemma isClosed_of_place {word : String} {texts : List String}
    (h : layout.place (.instruction word texts) = .ok after) : Source.IsClosed word.toList := by
  simp only [place] at h
  split at h
  · next resolved hresolved =>
    have hdenotes := (resolve_eq_ok_iff (isShaped_operandsOf texts)).1 hresolved
    have hfound : Mnemonic.all.find? (fun mnemonic => mnemonic.name == Text.lower word) =
        some resolved.template.mnemonic := hdenotes.mnemonic
    have hname := List.find?_some hfound
    rw [beq_iff_eq] at hname
    have hplain : ∀ mnemonic ∈ Mnemonic.all, Source.hasNoQuote mnemonic.name.toList = true := by
      decide
    exact Source.isClosed_of_lower hname.symm (hplain _ (List.mem_of_find?_eq_some hfound))
  · cases h

/-- **A line in another case** leads from one layout to the other. -/
theorem Reads.same {before before' named : Layout} {text text' : String} {line : PreparedLine}
    (hreads : before.Reads number text named line after) (h : before.Same before')
    (htext : SameLine text text') (hclear : Source.IsClearLine text) :
    ∃ named' line' after', before'.Reads number text' named' line' after' ∧ line.Same line' ∧
      after.Same after' := by
  obtain ⟨parts, hparts, hdefine, hstatement⟩ := hreads.defined
  obtain ⟨hdefinition, hoperands⟩ := hclear _ (Source.parts?_eq_some hparts hstatement)
  -- the line is taken apart alike
  have hclosed : ∀ name value, parts.definition = some (.constant name value) →
      Source.IsClosed name.toList := fun name value hconstant => (hdefinition _ hconstant).1
  obtain ⟨parts', hparts', hfold⟩ := Line.ofText_congr htext hparts hclosed
  obtain ⟨hdefinitions, hstatements⟩ := Line.mk.inj hfold
  have hword : ∀ word operands, line.statement = .instruction word operands →
      Source.IsClosed word.toList := by
    intro word operands hinstruction
    have hplaced := hreads.placed
    rw [hinstruction] at hplaced
    exact isClosed_of_place hplaced
  obtain ⟨statement', hstatement', hfolded⟩ := Statement.ofText_congr hstatements hstatement hword
  have hsame := Statement.same_of_fold_eq hoperands hfolded
  -- and goes on from there
  obtain ⟨named', hnamed', hlayouts⟩ := h.define hdefinitions hdefinition hdefine
  let line' : PreparedLine := ⟨number, String.ofList (Text.trimEnd text'.toList), statement'⟩
  have hline : line.Same line' := ⟨hreads.number_eq, hsame⟩
  obtain ⟨after', hplaced', hafter⟩ := (hlayouts.keep hline).place hsame hreads.placed
  exact ⟨named', line', after', ⟨⟨parts', hparts', hnamed', hstatement'⟩, rfl, rfl, hplaced'⟩,
    hline, hafter⟩

/-- A statement in another case ends the text as well. -/
lemma stop_iff_of_same {statement statement' : Statement} (h : statement.Same statement') :
    statement = .stop ↔ statement' = .stop := by
  cases h <;> simp

/-- **Lines in another case** lead from one layout to the other.

**Proof sketch.** Induction on the lines.  An `end` is one in any case. -/
theorem Run.same {before before' : Layout} {texts texts' : List String} {lines : List PreparedLine}
    (hrun : Run before number texts lines after) (h : before.Same before')
    (htexts : List.Forall₂ SameLine texts texts') (hclear : Source.AreClear texts) :
    ∃ lines' after', Run before' number texts' lines' after' ∧ after.Same after' := by
  induction hrun generalizing before' texts' with
  | nil =>
    cases htexts
    exact ⟨[], before', .nil, h⟩
  | stop hline hstop =>
    cases htexts with
    | cons htext _ =>
      obtain ⟨named', line', after', hline', hsame, hafter⟩ := hline.same h htext hclear.1
      have hstop' := (stop_iff_of_same hsame.statement).1 hstop
      exact ⟨[line'], after', .stop hline' hstop', hafter⟩
  | cons hline hstop _ ih =>
    cases htexts with
    | cons htext hmore =>
      obtain ⟨named', line', after', hline', hsame, hafter⟩ := hline.same h htext hclear.1
      have hstop' := mt (stop_iff_of_same hsame.statement).2 hstop
      obtain ⟨parts, hparts, -, hstatement⟩ := hline.defined
      have hgo := hclear.2 (by simp [Source.isEnd, Source.parts?_eq_some hparts hstatement, hstop])
      obtain ⟨lines', last', hrun', hlast⟩ := ih hafter hmore hgo
      exact ⟨line' :: lines', last', .cons hline' hstop' hrun', hlast⟩

end Layout

/-! ### The second pass -/

namespace Image

/-- Two images with the same bytes from the same lines, which are at the same place. -/
structure Same (image image' : Image) : Prop where
  segments : image.segments = image'.segments
  memory : image.memory = image'.memory
  origins : image.origins = image'.origins

variable {image image' after : Image} {symbols symbols' : SymbolTable} {line line' : PreparedLine}

/-- An entry of the listing is no byte. -/
lemma Same.list (h : image.Same image') (entry entry' : Listing.Entry) :
    (image.list entry).Same (image'.list entry') :=
  ⟨h.segments, h.memory, h.origins⟩

/-- The same bytes are written to both images. -/
lemma Same.emit (h : image.Same image') {number : Nat} {bytes : List UInt8}
    (hemit : image.emit number bytes = .ok after) :
    ∃ after', image'.emit number bytes = .ok after' ∧ after.Same after' := by
  obtain ⟨memory, origins, hclaim, rfl⟩ := emit_eq_ok_iff.1 hemit
  rw [h.memory, h.origins, h.segments] at hclaim
  exact ⟨_, emit_eq_ok_iff.2 ⟨memory, origins, hclaim, rfl⟩, by rw [h.segments], rfl, rfl⟩

/-- A directive in another case moves both images alike. -/
lemma Same.direct (h : image.Same image') {scope : Expr.Scope} {statement statement' : Statement}
    {address : Option UInt16} (hsame : statement.Same statement')
    (hdirect : image.direct scope statement = .ok (after, address)) :
    ∃ after', image'.direct scope statement' = .ok (after', address) ∧ after.Same after' := by
  cases hsame with
  | segment target =>
    obtain ⟨rfl, rfl⟩ := Prod.mk.inj (Except.ok.inj hdirect)
    exact ⟨_, rfl, by rw [h.segments], h.memory, h.origins⟩
  | origin htext =>
    obtain ⟨w, hw, hmoved⟩ := bind_eq_ok_iff.1 hdirect
    obtain ⟨rfl, rfl⟩ := Prod.mk.inj (Except.ok.inj hmoved)
    have hw' := (toOption_eq_iff.1 (liftExpr_evaluateWord_congr htext) w).1 hw
    exact ⟨_, bind_eq_ok_iff.2 ⟨w, hw', rfl⟩, by rw [h.segments], h.memory, h.origins⟩
  | empty | stop | bytes | words | space | instruction =>
    obtain ⟨rfl, rfl⟩ := Prod.mk.inj (Except.ok.inj hdirect)
    exact ⟨_, rfl, h⟩

/-- **A line in another case** is written to both images. -/
theorem writeLine_same (hsymbols : symbols.Same symbols') (h : image.Same image')
    (hline : line.Same line') (hwrite : image.writeLine symbols line = .ok after) :
    ∃ after', image'.writeLine symbols' line' = .ok after' ∧ after.Same after' := by
  have hemission (emission : Option Emission) :
      line.statement.emission? (symbols.scope image.segments.location) = .ok emission ↔
        line'.statement.emission? (symbols'.scope image'.segments.location) = .ok emission := by
    rw [h.segments, hsymbols.scope]
    exact toOption_eq_iff.1 hline.statement.emission?_congr emission
  rcases writeLine_eq_ok_iff.1 hwrite with ⟨address, moved, hnone, hmoved, rfl⟩ |
    ⟨emission, written, hsome, hwritten, rfl⟩
  · rw [h.segments, hsymbols.scope] at hmoved
    obtain ⟨moved', hmoved', hsame⟩ := h.direct hline.statement hmoved
    exact ⟨_, writeLine_eq_ok_iff.2
      (.inl ⟨address, moved', (hemission none).1 hnone, hmoved', rfl⟩), hsame.list _ _⟩
  · rw [hline.number] at hwritten
    obtain ⟨written', hwritten', hsame⟩ := h.emit hwritten
    exact ⟨_, writeLine_eq_ok_iff.2
      (.inr ⟨emission, written', (hemission _).1 hsome, hwritten', rfl⟩), hsame.list _ _⟩

/-- **Lines in another case** are written to both images. -/
theorem writeLines_same {lines lines' : List PreparedLine} (hsymbols : symbols.Same symbols')
    (h : image.Same image') (hlines : List.Forall₂ PreparedLine.Same lines lines')
    (hwrite : image.writeLines symbols lines = .ok after) :
    ∃ after', image'.writeLines symbols' lines' = .ok after' ∧ after.Same after' := by
  induction hlines generalizing image image' with
  | nil =>
    obtain rfl := Except.ok.inj hwrite
    exact ⟨image', rfl, h⟩
  | cons hline _ ih =>
    obtain ⟨next, hnext, hmore⟩ := writeLines_cons_eq_ok_iff.1 hwrite
    obtain ⟨next', hnext', hsame⟩ := writeLine_same hsymbols h hline hnext
    obtain ⟨after', hmore', hafter⟩ := ih hsame hmore
    exact ⟨after', writeLines_cons_eq_ok_iff.2 ⟨next', hnext', hmore'⟩, hafter⟩

end Image

/-! ### Assemblies -/

/-- **Letter case outside literals does not matter**, where all readers agree about literals.  If a
text is assembled, then each text that differs from it in letters outside literals is assembled to
the same memory, the same origins and the same start, and to the same symbols up to the letters of
their names.

**Proof sketch.** Both passes go through the two texts in step.  Each line of one text has the parts
of the same line of the other one, up to letters outside literals, and these matter neither to the
values of expressions nor to the choice of an instruction. -/
theorem assemble_sameSource {options : Assembly.Options} {source source' : String}
    {assembly : Assembly} (hsame : SameSource source source') (hclear : IsClearSource source)
    (h : assemble options source = .ok assembly) :
    ∃ assembly', assemble options source' = .ok assembly' ∧
      assembly.memory = assembly'.memory ∧ assembly.origins = assembly'.origins ∧
      assembly.start? = assembly'.start? ∧
      List.Forall₂ Symbol.Same assembly.symbols.symbols assembly'.symbols.symbols := by
  obtain ⟨layout, image, hlayout, himage, rfl⟩ := assemble_eq_ok_iff.1 h
  obtain ⟨lines, hrun⟩ := Layout.readLines_eq_ok_iff.1 hlayout
  have hblank : (Layout.blank options.segment).Same (Layout.blank options.segment) :=
    ⟨rfl, .nil, rfl, .nil⟩
  obtain ⟨lines', layout', hrun', hlayouts⟩ := hrun.same hblank hsame hclear
  obtain ⟨image', himage', himages⟩ :=
    Image.writeLines_same hlayouts.symbols ⟨rfl, rfl, rfl⟩ hlayouts.lines himage
  have hlayout' : Layout.ofSource options.segment source' = .ok layout' :=
    Layout.readLines_eq_ok_iff.2 ⟨lines', hrun'⟩
  exact ⟨_, assemble_eq_ok_iff.2 ⟨layout', image', hlayout', himage', rfl⟩, himages.memory,
    himages.origins, hlayouts.start?, hlayouts.symbols.symbols⟩

/-- A program with literals, comments, the shadow registers and text behind its `end`. -/
theorem assemble_sameSource_program :
    ∃ assembly assembly',
      assemble {} "Start: LD A,'x' ; don't\n db \"Az\",0Ah\n jr START\n EX AF,AF'\n END\n \"a\"b" =
        .ok assembly ∧
      assemble {} "START: ld a,'x' ; DON'T\n DB \"Az\",0aH\n JR start\n ex af,Af'\n end\n \"a\"B" =
        .ok assembly' ∧
      assembly.memory = assembly'.memory ∧ assembly.origins = assembly'.origins ∧
      assembly.start? = assembly'.start? ∧
      List.Forall₂ Symbol.Same assembly.symbols.symbols assembly'.symbols.symbols := by
  obtain ⟨assembly, h⟩ := exists_of_isOk (x := assemble {}
    "Start: LD A,'x' ; don't\n db \"Az\",0Ah\n jr START\n EX AF,AF'\n END\n \"a\"b")
    (by decide +kernel)
  have hsame : SameSource
      "Start: LD A,'x' ; don't\n db \"Az\",0Ah\n jr START\n EX AF,AF'\n END\n \"a\"b"
      "START: ld a,'x' ; DON'T\n DB \"Az\",0aH\n JR start\n ex af,Af'\n end\n \"a\"B" := by
    decide +kernel
  obtain ⟨assembly', h', hrest⟩ := assemble_sameSource hsame (by decide +kernel) h
  exact ⟨assembly, assembly', h, h', hrest⟩

/-- **The case of a letter between two literals matters**, because the operand is taken for one
string that starts and ends with a quote. -/
theorem case_matters_between_literals :
    SameSource " db \"a\"b\"c\"" " db \"a\"B\"c\"" ∧
      (assemble {} " db \"a\"b\"c\"").toOption.map (fun a => a.memory.slice 0 5) =
        some [0x61, 0x22, 0x62, 0x22, 0x63] ∧
      (assemble {} " db \"a\"B\"c\"").toOption.map (fun a => a.memory.slice 0 5) =
        some [0x61, 0x22, 0x42, 0x22, 0x63] := by
  decide +kernel

/-- Three quotes are a literal for the lexer, and then the letter behind them is in one, too. -/
example :
    SameSource " ld a,\"\"\"+\"b\"" " ld a,\"\"\"+\"B\"" ∧
      (assemble {} " ld a,\"\"\"+\"b\"").toOption.map (fun a => a.memory.slice 0 2) =
        some [0x3E, 0x84] ∧
      (assemble {} " ld a,\"\"\"+\"B\"").toOption.map (fun a => a.memory.slice 0 2) =
        some [0x3E, 0x64] := by
  decide +kernel

/-- The literal in front of `y` starts in the name, which is cut off inside it. -/
example :
    SameSource "\"x equ \"y\"" "\"x equ \"Y\"" ∧
      (assemble {} "\"x equ \"y\"").toOption.map (fun a => a.symbols.value? "\"x") =
        some (some 0x79) ∧
      (assemble {} "\"x equ \"Y\"").toOption.map (fun a => a.symbols.value? "\"x") =
        some (some 0x59) := by
  decide +kernel

end Z80
