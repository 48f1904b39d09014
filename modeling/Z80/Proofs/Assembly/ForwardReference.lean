import Z80.Proofs.Assembly.Interleaving
import Z80.Proofs.Assembly.MissingName

/-!
# Constants may be defined behind their uses

A text that starts with a constant can be written with the constant at its end.  The first pass does
without it, unless an instruction is chosen by its value, and the second pass knows all names.

## Main definitions

* `Z80.Layout.Binds` — a layout with one more name.

## Main results

* `Z80.Layout.Run.exists_behind`, `Z80.Layout.Run.compares_eq_false_of_behind` — the first pass with
  the constant at the end.
* `Z80.emissionsFrom_congr`, `Z80.Image.claimAll_congr` — the second pass with other line numbers.
* `Z80.Assembly.constant_behind` — the assemblies of both texts.
-/

namespace Z80

open Source (Line Statement)

/-! ### The second pass -/

/-- The statements of lines, but for empty ones. -/
def statementsOf (lines : List PreparedLine) : List Statement :=
  (lines.map PreparedLine.statement).filter (· ≠ .empty)

section Emissions

variable {symbols symbols' : SymbolTable} {segments : Segments} {lines lines' : List PreparedLine}

/-- Lines without a statement emit nothing. -/
lemma emissionsFrom_filter : emissionsFrom symbols segments
    (lines.filter fun line => line.statement ≠ .empty) = emissionsFrom symbols segments lines := by
  induction lines generalizing segments with
  | nil => rfl
  | cons line lines ih =>
    by_cases hempty : line.statement = .empty
    · rw [List.filter_cons_of_neg (by simp [hempty]), ih, emissionsFrom, hempty]
      rfl
    · rw [List.filter_cons_of_pos (by simp [hempty])]
      simp only [emissionsFrom, ih]

/-- Lines with the same statements emit the same cells where names have the same values. -/
lemma emissionsFrom_congr_of_map (hvalues : symbols'.value? = symbols.value?)
    (hlines : lines'.map PreparedLine.statement = lines.map PreparedLine.statement)
    (h : (emissionsFrom symbols segments lines).failure? = none) :
    (emissionsFrom symbols' segments lines').emitted.map Emitted.cell =
        (emissionsFrom symbols segments lines).emitted.map Emitted.cell ∧
      (emissionsFrom symbols' segments lines').failure? = none := by
  induction lines generalizing segments lines' with
  | nil =>
    obtain rfl := List.map_eq_nil_iff.1 hlines
    exact ⟨rfl, rfl⟩
  | cons line lines ih =>
    obtain ⟨line', lines', rfl, hstatement, hlines⟩ := List.map_eq_cons_iff.1 hlines
    simp only [emissionsFrom, hstatement, SymbolTable.scope, hvalues] at h ⊢
    cases hemission : line.statement.emission? ⟨symbols.value?, segments.location⟩ with
    | error fault => simp [hemission] at h
    | ok emission? =>
      cases emission? with
      | none =>
        cases hdirected : segments.directed ⟨symbols.value?, segments.location⟩ line.statement with
        | error fault => simp [hemission, hdirected] at h
        | ok next =>
          simp only [hemission, hdirected] at h ⊢
          exact ih hlines h
      | some emission =>
        simp only [hemission] at h ⊢
        obtain ⟨hcells, hfailure⟩ := ih hlines h
        refine ⟨?_, hfailure⟩
        simp only [Emissions.emitted, List.flatMap_cons, List.map_append,
          Block.map_cell_emitted] at hcells ⊢
        rw [hcells]

/-- **Lines with the same statements emit the same cells** where names have the same values. -/
theorem emissionsFrom_congr (hvalues : symbols'.value? = symbols.value?)
    (hlines : statementsOf lines' = statementsOf lines)
    (h : (emissionsFrom symbols segments lines).failure? = none) :
    (emissionsFrom symbols' segments lines').emitted.map Emitted.cell =
        (emissionsFrom symbols segments lines).emitted.map Emitted.cell ∧
      (emissionsFrom symbols' segments lines').failure? = none := by
  rw [statementsOf, statementsOf, List.filter_map, List.filter_map] at hlines
  rw [← @emissionsFrom_filter _ _ lines] at h ⊢
  rw [← @emissionsFrom_filter _ _ lines']
  exact emissionsFrom_congr_of_map hvalues hlines h

end Emissions

/-- The same cells can be written whichever lines they belong to. -/
lemma Image.claimAll_congr {emitted emitted' : List Emitted}
    (hcells : emitted'.map Emitted.cell = emitted.map Emitted.cell)
    {memory last : Memory} {origins origins' owners : OriginMap}
    (howned : ∀ a, origins'.isOwned a = origins.isOwned a)
    (h : claimAll memory origins emitted = .ok (last, owners)) :
    ∃ owners', claimAll memory origins' emitted' = .ok (last, owners') ∧
      ∀ a, owners'.isOwned a = owners.isOwned a := by
  induction emitted generalizing emitted' memory origins origins' with
  | nil =>
    obtain rfl := List.map_eq_nil_iff.1 hcells
    obtain ⟨rfl, rfl⟩ := Prod.mk.inj (Except.ok.inj h)
    exact ⟨origins', rfl, howned⟩
  | cons e emitted ih =>
    obtain ⟨e', emitted', rfl, hcell, hcells⟩ := List.map_eq_cons_iff.1 hcells
    obtain ⟨haddress, hbyte⟩ := Prod.mk.inj hcell
    cases hfree : origins.lineAt? e.address with
    | some previous => simp [claimAll, OriginMap.claim, hfree] at h
    | none =>
      have hfree' : origins'.lineAt? e.address = none := by
        simpa [OriginMap.isOwned, hfree] using howned e.address
      simp only [claimAll, OriginMap.claim, hfree, haddress, hbyte, hfree'] at h ⊢
      refine ih hcells (fun a => ?_) h
      have hothers := howned a
      simp only [OriginMap.isOwned, OriginMap.lineAt?_assign] at hothers ⊢
      split
      · rfl
      · exact hothers

namespace Assembly

variable {options : Assembly.Options} {source source' : String} {assembly : Assembly}

/-- **Texts with the same statements are assembled to the same bytes** if names have the same
values. -/
theorem exists_assemble_congr {layout layout' : Layout}
    (hlayout : Layout.ofSource options.segment source = .ok layout)
    (hlayout' : Layout.ofSource options.segment source' = .ok layout')
    (hstatements : statementsOf layout'.lines.toList = statementsOf layout.lines.toList)
    (hvalues : layout'.symbols.value? = layout.symbols.value?)
    (h : assemble options source = .ok assembly) :
    ∃ assembly', assemble options source' = .ok assembly' ∧
      assembly'.memory = assembly.memory ∧
      (∀ a, assembly'.origins.isOwned a = assembly.origins.isOwned a) ∧
      assembly'.symbols = layout'.symbols ∧ assembly'.start? = layout'.start? := by
  obtain ⟨hwritten, hfailure⟩ := claimAll_of_assemble h hlayout
  obtain ⟨hcells, hfailure'⟩ := emissionsFrom_congr hvalues hstatements hfailure
  obtain ⟨owners, hwritten', howned⟩ := Image.claimAll_congr hcells (fun _ => rfl) hwritten
  obtain ⟨assembly', h', hmemory, horigins, hsymbols, hstart⟩ :=
    exists_assemble hlayout' hwritten' hfailure'
  exact ⟨assembly', h', hmemory, horigins ▸ howned, hsymbols, hstart⟩

/-- The same bytes at the same addresses are the same image. -/
lemma image_congr {assembly' : Assembly} (hmemory : assembly'.memory = assembly.memory)
    (howned : ∀ a, assembly'.origins.isOwned a = assembly.origins.isOwned a) :
    assembly'.image = assembly.image := by
  have howners : assembly'.origins.owned = assembly.origins.owned := by
    unfold OriginMap.owned
    exact List.filter_congr fun a _ => howned a
  have hrange : assembly'.origins.range? = assembly.origins.range? := by
    unfold OriginMap.range?
    rw [howners]
  unfold image bytesIn
  rw [hrange, hmemory]

end Assembly

/-! ### The constant -/

/-- A line that defines a constant has no statement. -/
lemma Source.Line.statement_of_constant {text name value : String} {line : Line}
    (h : Line.ofText text = .ok line)
    (hconstant : line.definition = some (.constant name value)) : line.statement = "" := by
  unfold Line.ofText Line.ofPrepared at h
  split at h
  · obtain ⟨word, -, rfl⟩ := map_eq_ok_iff.1 h
    simp only [ofLabelled] at hconstant ⊢
    split
    · rfl
    · next hne => simp [hne] at hconstant
  · obtain rfl := Except.ok.inj h
    simp only [ofUnlabelled] at hconstant ⊢
    split
    · rfl
    · next hne => simp [hne] at hconstant

namespace Layout

/-- The layout `after` has all that `before` has, and a new name with its value. -/
structure Binds (before : Layout) (name : String) (word : UInt16) (after : Layout) : Prop where
  new : before.symbols.value? name = none
  segments_eq : after.segments = before.segments
  start?_eq : after.start? = before.start?
  value?_eq : ∀ other, after.symbols.value? other =
    if Text.lower name = Text.lower other then some word else before.symbols.value? other

variable {name value text : String} {word : UInt16} {before named after early last : Layout}
  {number : Nat} {line : PreparedLine}

/-- The name is all that is missing before it is bound. -/
lemma Binds.lacks (h : before.Binds name word after) : before.Lacks name after where
  segments_eq := h.segments_eq.symm
  start?_eq := h.start?_eq.symm
  value?_eq other := by
    split
    · next heq => exact (before.symbols.value?_congr heq).trans h.new
    · next hne => rw [h.value?_eq, if_neg (Ne.symm hne)]
  defined := by simp [h.value?_eq]

/-- Binding the name that is missing gives all names their values. -/
lemma Lacks.value?_eq_of_binds (h : early.Lacks name last)
    (hword : last.symbols.value? name = some word) (hbinds : early.Binds name word after) :
    after.symbols.value? = last.symbols.value? := by
  funext other
  rw [hbinds.value?_eq]
  split
  · next heq => rw [← last.symbols.value?_congr heq, hword]
  · next hne => rw [h.value?_eq, if_neg (Ne.symm hne)]

section Constant

variable (hconstant : (Clause.ofText text).definition = some (.constant name value))

include hconstant

/-- Nothing stands behind the value of a constant. -/
lemma statement_of_constant : (Clause.ofText text).statement = .empty := by
  unfold Clause.ofText at hconstant ⊢
  split
  · next line hline =>
    simp only [hline] at hconstant
    split
    · next statement hstatement =>
      simp only [hstatement] at hconstant
      rw [Line.statement_of_constant hline hconstant] at hstatement
      exact (Except.ok.inj hstatement).symm
    · rfl
  · rfl

/-- The line of a constant binds its name. -/
lemma Reads.exists_binds (h : before.Reads number text named line after) :
    ∃ word, Expr.evaluateWord before.scope value = .ok word ∧ before.Binds name word after ∧
      line.statement = .empty := by
  obtain ⟨hstatement, hdefine⟩ := h.clause_ofText
  rw [statement_of_constant hconstant] at hstatement
  rw [hconstant] at hdefine
  obtain ⟨word, hword, hnamed⟩ := bind_eq_ok_iff.1 hdefine
  obtain ⟨symbols, hsymbols, rfl⟩ := name_eq_ok hnamed
  have hplaced := h.placed
  rw [← hstatement] at hplaced
  obtain rfl := Except.ok.inj hplaced
  have hnew := SymbolTable.value?_eq_none hsymbols
  have hvalues := SymbolTable.value?_define hsymbols
  exact ⟨word, liftExpr_eq_ok_iff.1 hword, ⟨hnew, rfl, rfl, hvalues⟩, hstatement.symm⟩

/-- The line of a constant can be read wherever its name is new and its value is known. -/
lemma Reads.exists_reads (h : before.Reads number text named line after)
    (hnew : early.symbols.value? name = none)
    (hword : Expr.evaluateWord early.scope value = .ok word) (number' : Nat) :
    ∃ named' line' after', early.Reads number' text named' line' after' := by
  obtain ⟨parts, hparts, hdefine, hstatement⟩ := h.defined
  obtain ⟨hempty, -⟩ := h.clause_ofText
  rw [statement_of_constant hconstant] at hempty
  have hdefinition : parts.definition = some (.constant name value) := by
    simpa only [Clause.ofText, hparts, hstatement] using hconstant
  obtain ⟨symbols, hsymbols⟩ := @SymbolTable.exists_define early.symbols
    ⟨name, word, number', .constant⟩ hnew
  let line' : PreparedLine :=
    ⟨number', String.ofList (Text.trimEnd text.toList), line.statement⟩
  refine ⟨{ early with symbols }, line', Layout.keep { early with symbols } line',
    ⟨⟨parts, hparts, ?_, hstatement⟩, rfl, rfl, ?_⟩⟩
  · rw [hdefinition]
    exact bind_eq_ok_iff.2 ⟨word, liftExpr_eq_ok_iff.2 hword, by rw [Layout.name, hsymbols]⟩
  · rw [← hempty]
    rfl

end Constant

section Behind

variable {first : String} {rest : List String} {lines : List PreparedLine}
  (hconstant : (Clause.ofText first).definition = some (.constant name value))
  (hfree : ∀ text ∈ rest, (Clause.ofText text).IsFree name)
  (h : Run before number (first :: rest) lines last)

include hconstant hfree h

/-- **The line of a constant can be read behind lines** that do without it.

**Proof sketch.** The name is all that the other lines lack in front of them, and so it is all that
is missing behind them. -/
theorem Run.exists_behind (hvalue : Expr.isPositionDependent value = false)
    (hcompares : ∀ text ∈ rest, (Clause.ofText text).statement.compares name = false)
    (number' : Nat) :
    ∃ lines' last', Run before number' (rest ++ [first]) lines' last' ∧
      statementsOf lines' = statementsOf lines ∧
      last'.symbols.value? = last.symbols.value? ∧ last'.start? = last.start? := by
  cases h with
  | stop hline hstop =>
    obtain ⟨_, -, -, hempty⟩ := hline.exists_binds hconstant
    simp [hempty] at hstop
  | @cons _ named after _ _ _ _ line front hline _ hmore =>
    obtain ⟨word, hword, hbinds, hempty⟩ := hline.exists_binds hconstant
    obtain ⟨front', between, hrun, hstatements, hlacks⟩ :=
      hmore.exists_lacking hbinds.lacks hfree hcompares number'
    have hbound : last.symbols.value? name = some word :=
      hmore.symbols_extends.covers _ _ (by rw [hbinds.value?_eq, if_pos rfl])
    have hnew : between.symbols.value? name = none := by rw [hlacks.value?_eq, if_pos rfl]
    have hword' : Expr.evaluateWord between.scope value = .ok word := by
      rwa [Expr.evaluateWord, Expr.evaluate_of_isPositionDependent hvalue]
    obtain ⟨named', line', last', hline'⟩ :=
      hline.exists_reads hconstant hnew hword' (number' + rest.length)
    obtain ⟨found, hfound, hbinds', hempty'⟩ := hline'.exists_binds hconstant
    obtain rfl := Except.ok.inj (hword'.symm.trans hfound)
    refine ⟨front' ++ [line'], last',
      hrun.append (hrun.ne_stop hfree) (.cons hline' (by simp [hempty']) .nil), ?_,
      hlacks.value?_eq_of_binds hbound hbinds', hbinds'.start?_eq.trans hlacks.start?_eq⟩
    simp [statementsOf, hstatements, hempty, hempty']

/-- The line of a constant cannot be read behind lines of which one compares an operand that
mentions it. -/
lemma Run.compares_eq_false_of_behind {lines' : List PreparedLine} {last' : Layout} {number' : Nat}
    (h' : Run before number' (rest ++ [first]) lines' last') :
    ∀ text ∈ rest, (Clause.ofText text).statement.compares name = false := by
  cases h with
  | stop hline hstop =>
    obtain ⟨_, -, -, hempty⟩ := hline.exists_binds hconstant
    simp [hempty] at hstop
  | cons hline _ hmore =>
    obtain ⟨_, -, hbinds, -⟩ := hline.exists_binds hconstant
    exact hmore.compares_eq_false hbinds.lacks hfree h'

end Behind

end Layout

/-! ### Assemblies -/

namespace Assembly

variable {options : Assembly.Options} {source source' first : String} {rest : List String}
  {name value : String} {assembly : Assembly}

/-- **A constant may be defined behind its uses.**  Let the first line of a text define a constant
by an expression without names and without `$`, and let no other line end the text or mention the
name in the value of a constant, the address of an origin or the size of a space.  If the text is
assembled, then the text with this line at its end is assembled exactly if no instruction compares
an operand that mentions the name with numbers.  In that case both have the same memory, image and
start, the same addresses are owned, and each name has the same value.

**Proof sketch.** The first pass evaluates nothing that mentions the name but what an instruction
compares, so up to the last line the layouts differ in this name alone.  Behind it all names have
the same values, and then the same statements emit the same cells. -/
theorem constant_behind (hsource : Text.lines source = first :: rest)
    (hsource' : Text.lines source' = rest ++ [first])
    (hconstant : (Clause.ofText first).definition = some (.constant name value))
    (hvalue : Expr.isPositionDependent value = false)
    (hfree : ∀ text ∈ rest, (Clause.ofText text).IsFree name)
    (h : assemble options source = .ok assembly) :
    ((∃ assembly', assemble options source' = .ok assembly') ↔
      ∀ text ∈ rest, (Clause.ofText text).statement.compares name = false) ∧
    ∀ assembly', assemble options source' = .ok assembly' →
      assembly'.memory = assembly.memory ∧ assembly'.image = assembly.image ∧
      assembly'.start? = assembly.start? ∧
      (∀ a, assembly'.origins.isOwned a = assembly.origins.isOwned a) ∧
      ∀ other, assembly'.symbols.value? other = assembly.symbols.value? other := by
  obtain ⟨layout, _, hlayout, -, hassembly⟩ := assemble_eq_ok_iff.1 h
  obtain ⟨lines, hrun⟩ := Layout.readLines_eq_ok_iff.1 hlayout
  have hlines : layout.lines.toList = lines := by simpa [Layout.blank] using hrun.lines_after
  rw [hsource] at hrun
  have hback : (∃ assembly', assemble options source' = .ok assembly') →
      ∀ text ∈ rest, (Clause.ofText text).statement.compares name = false := by
    rintro ⟨assembly', h'⟩
    obtain ⟨layout', _, hlayout', -, -⟩ := assemble_eq_ok_iff.1 h'
    rw [Layout.ofSource, hsource'] at hlayout'
    obtain ⟨lines', hrun'⟩ := Layout.readLines_eq_ok_iff.1 hlayout'
    exact hrun.compares_eq_false_of_behind hconstant hfree hrun'
  have hforth (hcompares : ∀ text ∈ rest, (Clause.ofText text).statement.compares name = false) :
      ∃ layout', Layout.ofSource options.segment source' = .ok layout' ∧
        statementsOf layout'.lines.toList = statementsOf layout.lines.toList ∧
        layout'.symbols.value? = layout.symbols.value? ∧ layout'.start? = layout.start? := by
    obtain ⟨lines', layout', hrun', hstatements, hrest⟩ :=
      hrun.exists_behind hconstant hfree hvalue hcompares 1
    have hlines' : layout'.lines.toList = lines' := by
      simpa [Layout.blank] using hrun'.lines_after
    rw [Layout.ofSource, hsource']
    exact ⟨layout', Layout.readLines_eq_ok_iff.2 ⟨lines', hrun'⟩,
      by rw [hlines', hlines, hstatements], hrest⟩
  refine ⟨⟨hback, fun hcompares => ?_⟩, fun assembly' h' => ?_⟩
  · obtain ⟨layout', hlayout', hstatements, hvalues, -⟩ := hforth hcompares
    obtain ⟨assembly', h', -⟩ := exists_assemble_congr hlayout hlayout' hstatements hvalues h
    exact ⟨assembly', h'⟩
  · obtain ⟨layout', hlayout', hstatements, hvalues, hstart⟩ := hforth (hback ⟨assembly', h'⟩)
    obtain ⟨found, hfound, hmemory, howned, hsymbols, hstart'⟩ :=
      exists_assemble_congr hlayout hlayout' hstatements hvalues h
    obtain rfl := Except.ok.inj (hfound.symm.trans h')
    subst hassembly
    refine ⟨hmemory, image_congr hmemory howned, hstart'.trans hstart, howned, fun other => ?_⟩
    rw [hsymbols, hvalues]

/-- A constant that is loaded, added to a displacement and written as data, behind a number of a bit
that does not mention it. -/
theorem constant_behind_used :
    ∃ assembly assembly',
      assemble {} "Size equ 5\nbuf: ld a,(ix+size)\n bit 3,a\n djnz buf\n db size\n dw SIZE*2" =
        .ok assembly ∧
      assemble {} "buf: ld a,(ix+size)\n bit 3,a\n djnz buf\n db size\n dw SIZE*2\nSize equ 5" =
        .ok assembly' ∧
      assembly'.memory = assembly.memory ∧ assembly'.image = assembly.image ∧
      assembly'.start? = assembly.start? ∧
      (∀ a, assembly'.origins.isOwned a = assembly.origins.isOwned a) ∧
      ∀ other, assembly'.symbols.value? other = assembly.symbols.value? other := by
  obtain ⟨assembly, h⟩ := exists_of_isOk (x := assemble {}
    "Size equ 5\nbuf: ld a,(ix+size)\n bit 3,a\n djnz buf\n db size\n dw SIZE*2")
    (by decide +kernel)
  have hconstant : (Clause.ofText "Size equ 5").definition = some (.constant "Size" "5") := by
    decide +kernel
  obtain ⟨⟨-, hassembled⟩, hsame⟩ := @constant_behind _ _
    "buf: ld a,(ix+size)\n bit 3,a\n djnz buf\n db size\n dw SIZE*2\nSize equ 5" _
    ["buf: ld a,(ix+size)", " bit 3,a", " djnz buf", " db size", " dw SIZE*2"] _ _ _
    (by decide +kernel) (by decide +kernel) hconstant (by decide +kernel) (by decide +kernel) h
  obtain ⟨assembly', h'⟩ := hassembled (by decide +kernel)
  exact ⟨assembly, assembly', h, h', hsame assembly' h'⟩

/-- **The number of a bit cannot be a constant that is defined behind it**, although no other line
defines a name or moves the location by the value of this one. -/
theorem constant_behind_compared :
    Text.lines "x equ 3\nbit x,a" = ["x equ 3", "bit x,a"] ∧
      Text.lines "bit x,a\nx equ 3" = ["bit x,a", "x equ 3"] ∧
      (Clause.ofText "x equ 3").definition = some (.constant "x" "3") ∧
      (Clause.ofText "bit x,a").IsFree "x" ∧
      (assemble {} "x equ 3\nbit x,a").isOk = true ∧
      (assemble {} "bit x,a\nx equ 3").isOk = false := by
  decide +kernel

end Assembly

end Z80
