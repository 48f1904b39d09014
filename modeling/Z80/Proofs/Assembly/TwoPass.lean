import Z80.Assembly.Assemble
import Z80.Proofs.Assembly.FirstPass
import Z80.Proofs.Assembly.SecondPass
import Z80.Proofs.Catalog.Encoding

/-!
# The two passes agree

The first pass moves the location counters by the sizes of statements, the second by the bytes
that it writes, and the second knows more names.  Still both are at the same place at every line
that they reach, and understand the same by it.

## Main definitions

* `Z80.Fault.concernsForm` — whether a fault lies in the form of a directive or instruction.
* `Z80.FailsOnValues` — a computation that never fails for the form of anything.
* `Z80.Layout.AgreesWith` — what the two passes have in common at a line.

## Main results

* `Z80.Image.segments_writeLine` — a line moves the location counters alike in both passes.
* `Z80.Layout.passes_agree` — the passes agree at every line that the second one reaches.

## Design

The second pass evaluates under the complete table, which extends that of the first pass, so what
had a value keeps it.  What is left is that the number of bytes written is the size that was
counted, one statement at a time.
-/

namespace Z80

open Source (Statement)

/-! ### Faults of the second pass -/

/-- Whether a fault lies in the form of a directive or of an instruction, and not in the values of
its operands or in the place of its bytes. -/
def Fault.concernsForm : Fault → Bool
  | instruction _ | operandsRefused _ | oneOperandExpected _ | operandsExpected _
  | constantWithoutName => true
  | _ => false

/-- A computation that does not fail for the form of a directive or an instruction. -/
def FailsOnValues {α : Type} (x : Except Fault α) : Prop :=
  ∀ fault, x = .error fault → fault.concernsForm = false

/-- The operands of a statement are none of its form. -/
lemma Fault.concernsForm_of_concernsOperand {fault : Fault} (h : fault.concernsOperand = true) :
    fault.concernsForm = false := by
  cases fault <;> first | rfl | cases h

/-! ### One line in both passes -/

namespace Image

variable {layout after : Layout} {symbols : SymbolTable} {image : Image} {line : PreparedLine}

section Placed

variable (hplaced : layout.place line.statement = .ok after)
  (hlarger : symbols.Extends layout.symbols) (hsegments : image.segments = layout.segments)

include hlarger hsegments

/-- The scope of the second pass extends that of the first. -/
lemma scope_extends : (symbols.scope image.segments.location).Extends layout.scope := by
  rw [hsegments]
  exact hlarger.scope _

include hplaced

/-- The operand of an origin has the same value in both passes. -/
lemma evaluateWord_origin {text : String} (hline : line.statement = .origin text) :
    ∃ w, Expr.evaluateWord layout.scope text = .ok w ∧
      Expr.evaluateWord (symbols.scope image.segments.location) text = .ok w ∧
      after.segments = layout.segments.moveTo w := by
  rw [hline] at hplaced
  obtain ⟨w, hw, h⟩ := bind_eq_ok_iff.1 hplaced
  obtain rfl := Except.ok.inj h
  rw [liftExpr_eq_ok_iff] at hw
  exact ⟨w, hw, Expr.evaluateWord_extends (scope_extends hlarger hsegments) hw, rfl⟩

/-- The size of a space has the same value in both passes. -/
lemma evaluateWord_space {text : String} (hline : line.statement = .space text) :
    ∃ w, Expr.evaluateWord layout.scope text = .ok w ∧
      Expr.evaluateWord (symbols.scope image.segments.location) text = .ok w ∧
      after.segments = layout.segments.advance w := by
  rw [hline] at hplaced
  obtain ⟨w, hw, h⟩ := bind_eq_ok_iff.1 hplaced
  obtain rfl := Except.ok.inj h
  rw [liftExpr_eq_ok_iff] at hw
  exact ⟨w, hw, Expr.evaluateWord_extends (scope_extends hlarger hsegments) hw, rfl⟩

/-- An instruction denotes the same in both passes, and its bytes are those it was counted for. -/
lemma resolve_instruction {word : String} {texts : List String}
    (hline : line.statement = .instruction word texts) :
    ∃ resolved, resolve layout.scope word (operandsOf texts) = .ok resolved ∧
      resolve (symbols.scope image.segments.location) word (operandsOf texts) = .ok resolved ∧
      after.segments =
        layout.segments.advance (UInt16.ofNat resolved.descriptor.size) ∧
      ∀ encoding,
        resolved.encode (symbols.scope image.segments.location) (operandsOf texts) =
          .ok encoding →
        encoding.bytes.length = resolved.descriptor.size := by
  simp only [hline, Layout.place] at hplaced
  split at hplaced
  · next resolved hresolved =>
    obtain rfl := Except.ok.inj hplaced
    have hshaped := isShaped_operandsOf texts
    refine ⟨resolved, hresolved,
      resolve_extends (scope_extends hlarger hsegments) hshaped hresolved, rfl,
      fun encoding hencoding => ?_⟩
    exact Resolved.length_encode ((resolve_eq_ok_iff hshaped).1 hresolved) hencoding
  · simp at hplaced

/-- A line without bytes moves the location counters alike in both passes. -/
lemma segments_direct {moved : Image} {address : Option UInt16}
    (hnone : line.statement.emission? (symbols.scope image.segments.location) = .ok none)
    (hmoved : image.direct (symbols.scope image.segments.location) line.statement =
      .ok (moved, address)) : moved.segments = after.segments := by
  cases hline : line.statement with
  | empty | stop | segment =>
    rw [hline] at hmoved hplaced
    obtain ⟨rfl, rfl⟩ := Prod.mk.inj (Except.ok.inj hmoved)
    obtain rfl := Except.ok.inj hplaced
    simp [hsegments]
  | origin text =>
    obtain ⟨w, -, hw, hafter⟩ := evaluateWord_origin hplaced hlarger hsegments hline
    rw [hline] at hmoved
    obtain ⟨w', hw', hmoved⟩ := bind_eq_ok_iff.1 hmoved
    obtain rfl : w = w' := Except.ok.inj (hw.symm.trans (liftExpr_eq_ok_iff.1 hw'))
    obtain ⟨rfl, rfl⟩ := Prod.mk.inj (Except.ok.inj hmoved)
    rw [hafter, hsegments]
  | bytes | words | space =>
    rw [hline] at hnone
    obtain ⟨_, -, ⟨⟩⟩ := bind_eq_ok_iff.1 hnone
  | instruction =>
    rw [hline] at hnone
    obtain ⟨_, -, ⟨⟩⟩ := map_eq_ok_iff.1 hnone

/-- A line is counted in the first pass for as many bytes as the second pass emits for it. -/
lemma advance_emission {emission : Emission}
    (hsome : line.statement.emission? (symbols.scope image.segments.location) =
      .ok (some emission)) :
    image.segments.advance (UInt16.ofNat emission.bytes.length) = after.segments := by
  cases hline : line.statement with
  | empty | stop | segment | origin =>
    simp [hline, Source.Statement.emission?] at hsome
  | bytes operands =>
    rw [hline] at hsome hplaced
    obtain ⟨bytes, hbytes, hemission⟩ := bind_eq_ok_iff.1 hsome
    obtain rfl := Option.some.inj (Except.ok.inj hemission)
    obtain rfl := Except.ok.inj hplaced
    rw [length_dataBytes hbytes, hsegments]
    rfl
  | words operands =>
    rw [hline] at hsome hplaced
    obtain ⟨bytes, hbytes, hemission⟩ := bind_eq_ok_iff.1 hsome
    obtain rfl := Option.some.inj (Except.ok.inj hemission)
    obtain rfl := Except.ok.inj hplaced
    rw [length_dataWords hbytes, hsegments]
    rfl
  | space text =>
    obtain ⟨w, -, hw, hafter⟩ := evaluateWord_space hplaced hlarger hsegments hline
    rw [hline] at hsome
    obtain ⟨w', hw', hemission⟩ := bind_eq_ok_iff.1 hsome
    obtain rfl : w = w' := Except.ok.inj (hw.symm.trans (liftExpr_eq_ok_iff.1 hw'))
    obtain rfl := Option.some.inj (Except.ok.inj hemission)
    simp [hafter, hsegments]
  | instruction word texts =>
    obtain ⟨resolved, -, hresolved, hafter, hlength⟩ :=
      resolve_instruction hplaced hlarger hsegments hline
    rw [hline] at hsome
    obtain ⟨found, hfound, hemission⟩ := map_eq_ok_iff.1 hsome
    obtain rfl := Option.some.inj hemission
    obtain ⟨resolved', encoding, hresolved', hencoding, hbytes, -⟩ :=
      instructionEmission_eq_ok hfound
    obtain rfl : resolved = resolved' := Except.ok.inj (hresolved.symm.trans hresolved')
    rw [hbytes, hlength encoding hencoding, hafter, hsegments]

/-- **A line moves the location counters alike in both passes.** -/
theorem segments_writeLine {next : Image} (h : image.writeLine symbols line = .ok next) :
    next.segments = after.segments := by
  rcases writeLine_eq_ok_iff.1 h with ⟨address, moved, hnone, hmoved, rfl⟩ |
    ⟨emission, written, hsome, hwritten, rfl⟩
  · show moved.segments = after.segments
    exact segments_direct hplaced hlarger hsegments hnone hmoved
  · obtain ⟨memory, origins, -, rfl⟩ := emit_eq_ok_iff.1 hwritten
    exact advance_emission hplaced hlarger hsegments hsome

/-- **The second pass fails at a line only for values or for the place of bytes.** -/
theorem failsOnValues_writeLine : FailsOnValues (image.writeLine symbols line) := by
  intro fault h
  rcases writeLine_eq_error_iff.1 h with hemission | ⟨-, hdirect⟩ | ⟨emission, -, hemit⟩
  · rcases emission?_eq_error hemission with hoperand | ⟨word, texts, error, hline, hfails, -⟩
    · exact Fault.concernsForm_of_concernsOperand hoperand
    · obtain ⟨resolved, -, hresolved, -⟩ := resolve_instruction hplaced hlarger hsegments hline
      rw [hresolved] at hfails
      cases hfails
  · exact Fault.concernsForm_of_concernsOperand (FailsOnOperands.direct _ _ _ fault hdirect)
  · obtain ⟨address, previous, rfl⟩ := claim_eq_error (emit_eq_error_iff.1 hemit)
    rfl

end Placed

end Image

/-! ### All lines in both passes -/

namespace Layout

/-- What the two passes have in common at a line.  The first pass is at the layout `before` and,
behind the name of the line, at `named`; the second pass is at `image`, with all of `symbols`. -/
structure AgreesWith (before named : Layout) (symbols : SymbolTable) (image : Image)
    (line : PreparedLine) : Prop where
  /-- The active segment and all location counters are the same. -/
  segments_eq : image.segments = before.segments
  /-- A label that the line defines has the location that the second pass is at. -/
  label : ∀ symbol ∈ symbols.symbols, symbol.kind = .label → symbol.line = line.number →
    symbol.value = image.segments.location
  /-- The operand of an origin or a space has the same value. -/
  word : ∀ text, line.statement = .origin text ∨ line.statement = .space text →
    ∃ w, Expr.evaluateWord named.scope text = .ok w ∧
      Expr.evaluateWord (symbols.scope image.segments.location) text = .ok w
  /-- An instruction denotes the same, by the same of its templates, and the bytes that it is
  encoded as are those that it was counted for. -/
  instruction : ∀ word texts, line.statement = .instruction word texts →
    ∃ resolved, resolve named.scope word (operandsOf texts) = .ok resolved ∧
      resolve (symbols.scope image.segments.location) word (operandsOf texts) = .ok resolved ∧
      ∀ encoding,
        resolved.encode (symbols.scope image.segments.location) (operandsOf texts) =
          .ok encoding →
        encoding.bytes.length = resolved.descriptor.size

namespace Run

variable {before last : Layout} {number : Nat} {texts : List String} {lines : List PreparedLine}
  {image : Image}

/-- The passes agree at a line that is read where they are at the same place. -/
lemma agreesWith_of_reads {symbols : SymbolTable} {named after : Layout} {text : String}
    {line : PreparedLine} (hline : before.Reads number text named line after)
    (hlarger : symbols.Extends after.symbols) (hsegments : image.segments = before.segments)
    (hlabel : ∀ symbol ∈ symbols.symbols, symbol.line = number → symbol.kind = .label →
      symbol.value = before.segments.location) :
    before.AgreesWith named symbols image line where
  segments_eq := hsegments
  label symbol hmem hkind hnumber := by
    rw [hsegments]
    exact hlabel symbol hmem (hnumber.trans hline.number_eq) hkind
  word text htext := by
    rw [hline.symbols_after] at hlarger
    have hnamed := hsegments.trans hline.segments_named.symm
    rcases htext with htext | htext
    · obtain ⟨w, hfirst, hsecond, -⟩ :=
        Image.evaluateWord_origin hline.placed hlarger hnamed htext
      exact ⟨w, hfirst, hsecond⟩
    · obtain ⟨w, hfirst, hsecond, -⟩ :=
        Image.evaluateWord_space hline.placed hlarger hnamed htext
      exact ⟨w, hfirst, hsecond⟩
  instruction word texts hstatement := by
    rw [hline.symbols_after] at hlarger
    have hnamed := hsegments.trans hline.segments_named.symm
    obtain ⟨resolved, hfirst, hsecond, -, hlength⟩ :=
      Image.resolve_instruction hline.placed hlarger hnamed hstatement
    exact ⟨resolved, hfirst, hsecond, hlength⟩

/-- **The passes agree at every line that the second one reaches.**

**Proof sketch.** Induction on what the first pass reads.  If the passes are at the same place in
front of a line then so they are behind it, as the line moves the location counters alike. -/
theorem agreesWith (h : Run before number texts lines last)
    (hbefore : ∀ symbol ∈ before.symbols.symbols, symbol.line < number)
    (hsegments : image.segments = before.segments) {k : Nat} {line : PreparedLine}
    (hline : lines[k]? = some line) {reached : Image}
    (hreached : image.writeLines last.symbols (lines.take k) = .ok reached) :
    ∃ text front named behind, texts[k]? = some text ∧
      before.readLines number (texts.take k) = .ok front ∧
      front.Reads (number + k) text named line behind ∧
      front.AgreesWith named last.symbols reached line := by
  induction h generalizing image k with
  | nil => simp at hline
  | @stop before named after number text more first hfirst hstop =>
    cases k with
    | succ k => simp at hline
    | zero =>
      obtain rfl : first = line := by simpa using hline
      obtain rfl : image = reached := by simpa [Image.writeLines] using hreached
      refine ⟨text, before, named, after, rfl, rfl, hfirst,
        agreesWith_of_reads hfirst (.refl _) hsegments fun symbol hmem hnumber hkind => ?_⟩
      rcases hfirst.mem_symbols hmem with hold | ⟨-, hlabel⟩
      · have := hbefore symbol hold
        omega
      · exact hlabel hkind
  | @cons before named after last number text more first lines hfirst hstop hmore ih =>
    cases k with
    | zero =>
      obtain rfl : first = line := by simpa using hline
      obtain rfl : image = reached := by simpa [Image.writeLines] using hreached
      refine ⟨text, before, named, after, rfl, rfl, hfirst,
        agreesWith_of_reads hfirst hmore.symbols_extends hsegments
          fun symbol hmem hnumber hkind => ?_⟩
      rcases hmore.mem_symbols hmem with hafter | hlater
      · rcases hfirst.mem_symbols hafter with hold | ⟨-, hlabel⟩
        · have := hbefore symbol hold
          omega
        · exact hlabel hkind
      · omega
    | succ k =>
      rw [List.take_succ_cons, Image.writeLines_cons_eq_ok_iff] at hreached
      obtain ⟨next, hnext, hreached⟩ := hreached
      have hlarger := hmore.symbols_extends
      rw [hfirst.symbols_after] at hlarger
      have hsegments' : next.segments = after.segments :=
        Image.segments_writeLine hfirst.placed hlarger
          (hsegments.trans hfirst.segments_named.symm) hnext
      have hbefore' : ∀ symbol ∈ after.symbols.symbols, symbol.line < number + 1 := by
        intro symbol hmem
        rcases hfirst.mem_symbols hmem with hold | ⟨hnumber, -⟩
        · exact Nat.lt_succ_of_lt (hbefore symbol hold)
        · omega
      obtain ⟨text', front, named', behind, htext, hfront, hreads, hagrees⟩ :=
        ih hbefore' hsegments' (by simpa using hline) hreached
      refine ⟨text', front, named', behind, by simpa using htext, ?_, ?_, hagrees⟩
      · obtain ⟨read, hread⟩ := readLines_eq_ok_iff.1 hfront
        rw [List.take_succ_cons]
        exact readLines_eq_ok_iff.2 ⟨_, .cons hfirst hstop hread⟩
      · rwa [Nat.add_assoc, Nat.add_comm 1] at hreads

/-- The second pass fails only for values or for the place of bytes. -/
theorem failsOnValues (h : Run before number texts lines last)
    (hsegments : image.segments = before.segments) {failure : Failure}
    (hfailure : image.writeLines last.symbols lines = .error failure) :
    failure.fault.concernsForm = false := by
  induction h generalizing image with
  | nil => simp [Image.writeLines] at hfailure
  | @stop before named after number text more first hfirst hstop =>
    rw [Image.writeLines] at hfailure
    split at hfailure
    · next fault hfault =>
      obtain rfl := Except.error.inj hfailure
      have hlarger : after.symbols.Extends named.symbols := by
        rw [hfirst.symbols_after]
        exact .refl _
      exact Image.failsOnValues_writeLine hfirst.placed hlarger
        (hsegments.trans hfirst.segments_named.symm) fault hfault
    · simp [Image.writeLines] at hfailure
  | @cons before named after last number text more first lines hfirst hstop hmore ih =>
    have hlarger := hmore.symbols_extends
    rw [hfirst.symbols_after] at hlarger
    have hnamed := hsegments.trans hfirst.segments_named.symm
    rw [Image.writeLines] at hfailure
    split at hfailure
    · next fault hfault =>
      obtain rfl := Except.error.inj hfailure
      exact Image.failsOnValues_writeLine hfirst.placed hlarger hnamed fault hfault
    · next next hnext =>
      exact ih (Image.segments_writeLine hfirst.placed hlarger hnamed hnext) hfailure

/-- The lines that are read are numbered from the first one on. -/
lemma number_eq (h : Run before number texts lines last) {k : Nat} {line : PreparedLine}
    (hline : lines[k]? = some line) : line.number = number + k := by
  induction h generalizing k with
  | nil => simp at hline
  | stop hfirst =>
    cases k with
    | zero =>
      obtain rfl := Option.some.inj hline
      exact hfirst.number_eq
    | succ k => simp at hline
  | cons hfirst _ _ ih =>
    cases k with
    | zero =>
      obtain rfl := Option.some.inj hline
      exact hfirst.number_eq
    | succ k =>
      rw [ih (by simpa using hline)]
      omega

end Run

/-- **Both passes agree.**  For every text that the first pass reads: every symbol is defined by
one of its lines; at every line that the second pass reaches, both passes are at the same place and
understand the same; and the second pass never fails for the form of a directive or an
instruction. -/
theorem passes_agree {options : Assembly.Options} {source : String} {layout : Layout}
    (h : Layout.ofSource options.segment source = .ok layout) :
    (∀ symbol ∈ layout.symbols.symbols, ∃ line, layout.lines[symbol.line - 1]? = some line ∧
      line.number = symbol.line) ∧
    (∀ (k : Nat) (line : PreparedLine) (reached : Image), layout.lines[k]? = some line →
      (Image.blank options.segment).writeLines layout.symbols (layout.lines.toList.take k) =
        .ok reached →
      ∃ text before named after, (Text.lines source)[k]? = some text ∧
        (Layout.blank options.segment).readLines 1 ((Text.lines source).take k) = .ok before ∧
        before.Reads (k + 1) text named line after ∧
        before.AgreesWith named layout.symbols reached line) ∧
    ∀ failure, Image.ofLayout options.segment layout = .error failure →
      failure.fault.concernsForm = false := by
  obtain ⟨lines, hrun⟩ := readLines_eq_ok_iff.1 h
  have hlines : layout.lines.toList = lines := by simpa [blank] using hrun.lines_after
  refine ⟨fun symbol hmem => ?_, fun k line reached hline hreached => ?_,
    fun failure hfailure => ?_⟩
  · rcases hrun.mem_symbols hmem with hnone | ⟨hlow, hhigh⟩
    · simp [blank, SymbolTable.empty, SymbolTable.symbols] at hnone
    · have hlt : symbol.line - 1 < lines.length := by omega
      have hline : lines[symbol.line - 1]? = some lines[symbol.line - 1] :=
        List.getElem?_eq_getElem hlt
      refine ⟨_, by rw [← Array.getElem?_toList, hlines]; exact hline, ?_⟩
      rw [hrun.number_eq hline]
      omega
  · rw [← Array.getElem?_toList, hlines] at hline
    rw [hlines] at hreached
    have hagrees := hrun.agreesWith (by simp [blank, SymbolTable.empty, SymbolTable.symbols]) rfl
      hline hreached
    simpa only [Nat.add_comm 1 k] using hagrees
  · rw [Image.ofLayout, hlines] at hfailure
    exact hrun.failsOnValues rfl hfailure

/-- The passes agree about a jump ahead behind a loop: the second pass reaches it where the first
one read it, and it denotes the same. -/
theorem passes_agree_loop :
    ∃ (layout before named after : Layout) (line : PreparedLine) (reached : Image),
      Layout.ofSource .code "loop: djnz loop\n jp last\nlast: halt" = .ok layout ∧
      (∀ symbol ∈ layout.symbols.symbols, ∃ line, layout.lines[symbol.line - 1]? = some line ∧
        line.number = symbol.line) ∧
      layout.lines[1]? = some line ∧
      (Image.blank .code).writeLines layout.symbols (layout.lines.toList.take 1) = .ok reached ∧
      before.Reads 2 " jp last" named line after ∧
      before.AgreesWith named layout.symbols reached line ∧
      ∀ failure, Image.ofLayout .code layout = .error failure →
        failure.fault.concernsForm = false := by
  have hreaches : ((Layout.ofSource .code "loop: djnz loop\n jp last\nlast: halt").toOption.map
      fun layout => layout.lines[1]?.isSome && ((Image.blank .code).writeLines layout.symbols
        (layout.lines.toList.take 1)).isOk) = some true := by
    decide +kernel
  obtain ⟨layout, h⟩ :=
    exists_of_isOk (x := Layout.ofSource .code "loop: djnz loop\n jp last\nlast: halt")
      (by decide +kernel)
  rw [h] at hreaches
  obtain ⟨hsome, hok⟩ := Bool.and_eq_true_iff.1 (Option.some.inj hreaches)
  obtain ⟨line, hline⟩ := Option.isSome_iff_exists.1 hsome
  obtain ⟨reached, hreached⟩ := exists_of_isOk hok
  obtain ⟨hsymbols, hagree, hform⟩ := @passes_agree {} _ layout h
  obtain ⟨text, before, named, after, htext, -, hreads, hagrees⟩ :=
    hagree 1 line reached hline hreached
  have hsecond : (Text.lines "loop: djnz loop\n jp last\nlast: halt")[1]? = some " jp last" := by
    decide +kernel
  obtain rfl := Option.some.inj (htext.symm.trans hsecond)
  exact ⟨layout, before, named, after, line, reached, h, hsymbols, hline, hreached, hreads, hagrees,
    hform⟩

end Layout

end Z80
