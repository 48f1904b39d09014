import Mathlib.Data.List.Forall2
import Z80.Assembly.Image
import Z80.Proofs.Expr.Fold

/-!
# Statements that differ in letter case

Two statements that differ only in letters outside literals write the same bytes, as long as the
readers of their operands agree about what a literal is.

## Main definitions

* `Z80.Source.IsClearData`, `Z80.Source.Statement.IsClear` — operands and statements about whose
  literals their readers agree.
* `Z80.Operand.Same`, `Z80.SameData`, `Z80.Source.Statement.Same` — operands and statements that
  differ in letters outside literals.

## Main results

* `Z80.Operand.Same.accepts_congr`, `Z80.resolve_congr` — such operands are matched alike.
* `Z80.Resolved.encode_congr`, `Z80.dataBytes_congr` — instructions and data have the same bytes.
* `Z80.Source.Statement.same_of_fold_eq`, `Z80.Source.Statement.Same.emission?_congr` — so have
  statements.

## Design

A line takes an operand of a bytes directive for a string if it starts and ends with the same quote.
In `"a"b"c"` the letter between the literals then belongs to the string, and its case matters.  Such
operands are not clear.
-/

namespace Z80

open Z80.Expr (QuotesItself SameExpr)
open Source (Statement foldText)

/-! ### Clear operands -/

namespace Source

/-- Whether the readers of an operand of a bytes directive agree about its literals: in a string all
characters belong to literals, and in an expression no quote stands between two quotes of its
kind. -/
def IsClearData (operand : String) : Prop :=
  match stringLiteral? operand with
  | some _ => ∀ mark ∈ marked operand.toList, mark.2 = false
  | none => ¬QuotesItself operand.toList

instance (operand : String) : Decidable (IsClearData operand) :=
  match h : stringLiteral? operand with
  | some _ =>
    decidable_of_iff (∀ mark ∈ marked operand.toList, mark.2 = false) (by rw [IsClearData, h])
  | none => decidable_of_iff (¬QuotesItself operand.toList) (by rw [IsClearData, h])

/-- Whether the readers of the operands of a statement agree about their literals. -/
def Statement.IsClear : Statement → Prop
  | .empty | .segment _ | .stop => True
  | .origin text | .space text => ¬QuotesItself text.toList
  | .bytes operands => ∀ operand ∈ operands, IsClearData operand
  | .words operands | .instruction _ operands => ∀ operand ∈ operands, ¬QuotesItself operand.toList

instance : DecidablePred Statement.IsClear
  | .empty | .segment _ | .stop => isTrue trivial
  | .origin text | .space text => inferInstanceAs (Decidable (¬QuotesItself text.toList))
  | .bytes operands => inferInstanceAs (Decidable (∀ operand ∈ operands, IsClearData operand))
  | .words operands | .instruction _ operands =>
    inferInstanceAs (Decidable (∀ operand ∈ operands, ¬QuotesItself operand.toList))

end Source

variable {scope : Expr.Scope} {here : UInt16}

/-- Lists of operands that fold alike, one by one. -/
lemma forall₂_of_map_foldText_eq {texts texts' : List String}
    (h : texts.map foldText = texts'.map foldText) :
    List.Forall₂ (fun text text' => foldText text = foldText text') texts texts' := by
  have key : List.Forall₂ (· = ·) (texts.map foldText) (texts'.map foldText) := by
    rw [List.forall₂_eq_eq_eq, h]
  exact List.forall₂_map_right_iff.1 (List.forall₂_map_left_iff.1 key)

/-- Lists of clear expressions that fold alike, one by one. -/
lemma forall₂_sameExpr {texts texts' : List String}
    (hclear : ∀ text ∈ texts, ¬QuotesItself text.toList)
    (h : texts.map foldText = texts'.map foldText) : List.Forall₂ SameExpr texts texts' := by
  have key := (List.forall₂_and_left texts texts').2 ⟨hclear, forall₂_of_map_foldText_eq h⟩
  exact key.imp fun _ _ hsame => ⟨hsame.1, hsame.2⟩

/-! ### Operands of instructions -/

namespace Operand

/-- Two operands that differ in letters outside literals. -/
structure Same (operand operand' : Operand) : Prop where
  text : SameExpr operand.text operand'.text
  compact : operand.compact = operand'.compact
  shape : operand.shape = operand'.shape

/-- A trimmed text is a part of the text. -/
lemma isInfix_trim (cs : List Char) : Text.trim cs <:+: cs := by
  have hend : Text.trimEnd (Text.trimStart cs) <+: Text.trimStart cs := by
    have hsuffix : (Text.trimStart cs).reverse.dropWhile Text.isBlank <:+
        (Text.trimStart cs).reverse := List.dropWhile_suffix _
    exact List.reverse_suffix.1 (by rwa [Text.trimEnd, List.reverse_reverse])
  exact hend.isInfix.trans (List.dropWhile_suffix _).isInfix

/-- The characters without blanks and in lower case. -/
lemma compactChars_eq_filter (text : String) :
    compactChars text = (text.toList.map Char.toLower).filter fun c => !Text.isBlank c := by
  have hblank : ((fun c => !Text.isBlank c) ∘ Char.toLower) = fun c => !Text.isBlank c :=
    funext Source.not_isBlank_toLower
  rw [compactChars, List.filter_map, hblank]

/-- Texts that differ in letters outside literals do so when they are trimmed, too. -/
lemma sameExpr_trimmed {text text' : String} (h : SameExpr text text') :
    SameExpr (Text.trimmed text) (Text.trimmed text') where
  clear hself := by
    rw [Text.trimmed, String.toList_ofList] at hself
    exact h.clear (hself.mono (isInfix_trim _))
  fold_eq := by
    rw [Text.trimmed, Text.trimmed, Source.foldText_ofList, Source.foldText_ofList,
      ← Source.trim_fold, Source.foldText_eq_iff.1 h.fold_eq, Source.trim_fold]

/-- The operands in texts that differ in letters outside literals. -/
lemma same_ofText {text text' : String} (h : SameExpr text text') :
    (ofText text).Same (ofText text') := by
  have htrimmed := sameExpr_trimmed h
  have hlower := Source.map_toLower_of_fold_eq (Source.foldText_eq_iff.1 htrimmed.fold_eq)
  have hcompact : compactChars (Text.trimmed text) = compactChars (Text.trimmed text') := by
    rw [compactChars_eq_filter, compactChars_eq_filter, hlower]
  refine ⟨htrimmed, ?_, ?_⟩
  all_goals simp only [ofText, hcompact]

/-- The operands of an instruction, one by one. -/
lemma forall₂_same {texts texts' : List String} (h : List.Forall₂ SameExpr texts texts') :
    List.Forall₂ Same (operandsOf texts) (operandsOf texts') := by
  rw [operandsOf, operandsOf, List.forall₂_map_left_iff, List.forall₂_map_right_iff]
  exact h.imp fun _ _ => same_ofText

/-- A number that is spelled out is the value of both or of none. -/
lemma literalMatches_congr {text text' : String} (h : SameExpr text text') (literal : String) :
    literalMatches scope literal text = literalMatches scope literal text' := by
  have hvalue : (Expr.evaluate scope text).toOption = (Expr.evaluate scope text').toOption :=
    h.evaluate_congr
  unfold literalMatches
  cases htext : Expr.evaluate scope text with
  | ok v => rw [(toOption_eq_iff.1 hvalue v).1 htext]
  | error e =>
    cases htext' : Expr.evaluate scope text' with
    | ok v => simp [htext, htext', Except.toOption] at hvalue
    | error e' => split <;> simp_all

variable {operand operand' : Operand}

/-- **A slot accepts operands that differ in letters outside literals alike.** -/
theorem Same.accepts_congr (h : operand.Same operand') (mnemonic : Mnemonic) (slot : Slot) :
    slot.accepts scope mnemonic operand = slot.accepts scope mnemonic operand' := by
  cases slot with
  | literal text =>
    simp only [Slot.accepts, h.shape, literalMatches_congr h.text]
  | named | byte | word | relative | port | address | indexed =>
    simp only [Slot.accepts, h.shape, h.compact]

/-- Slots with operands in them that differ in letters outside literals. -/
def SameFilled (filled filled' : Slot × Operand) : Prop :=
  filled.1 = filled'.1 ∧ filled.2.Same filled'.2

/-- The same slots with operands that differ in letters outside literals. -/
lemma forall₂_zip {operands operands' : List Operand} (h : List.Forall₂ Same operands operands')
    (slots : List Slot) :
    List.Forall₂ SameFilled (slots.zip operands) (slots.zip operands') := by
  induction h generalizing slots with
  | nil => simp
  | cons hsame _ ih =>
    cases slots with
    | nil => simp
    | cons slot slots => exact .cons ⟨rfl, hsame⟩ (ih slots)

end Operand

section Instruction

variable {operands operands' : List Operand} {word word' : String}
  (h : List.Forall₂ Operand.Same operands operands')

include h

/-- Templates accept operands that differ in letters outside literals alike. -/
lemma accepts_congr (template : Template) :
    template.accepts scope operands = template.accepts scope operands' := by
  have hall {filled filled' : List (Slot × Operand)}
      (hfilled : List.Forall₂ Operand.SameFilled filled filled') :
      (filled.all fun pair => pair.1.accepts scope template.mnemonic pair.2) =
        filled'.all fun pair => pair.1.accepts scope template.mnemonic pair.2 := by
    induction hfilled with
    | nil => rfl
    | cons hsame _ ih => rw [List.all_cons, List.all_cons, hsame.1, hsame.2.accepts_congr, ih]
  rw [Template.accepts, Template.accepts, h.length_eq]
  exact congrArg (_ && ·) (hall (Operand.forall₂_zip h template.slots))

/-- The same encodings can be chosen. -/
lemma candidates_congr (hword : Text.lower word = Text.lower word') (alternate : Bool) :
    candidates scope word operands alternate = candidates scope word' operands' alternate := by
  have hmnemonic : Mnemonic.ofText? word = Mnemonic.ofText? word' := by
    rw [Mnemonic.ofText?, Mnemonic.ofText?, hword]
  rw [candidates, candidates, hmnemonic]
  split
  · next mnemonic _ =>
    refine List.filter_congr fun d _ => ?_
    simp only [Descriptor.isCandidate, accepts_congr h]
  · rfl

/-- **Instructions that differ in letters outside literals denote the same encoding.** -/
theorem resolve_congr (hword : Text.lower word = Text.lower word') :
    (resolve scope word operands).toOption = (resolve scope word' operands').toOption := by
  rw [resolve, resolve, candidates_congr h hword, candidates_congr h hword]
  split
  · rfl
  · split <;> rfl
  · rfl

end Instruction

/-! ### Bytes of instructions -/

/-- A text without a value is no displacement. -/
lemma relativeByte_of_error {text : String} {e : Expr.Error}
    (h : Expr.evaluate scope text = .error e) : (relativeByte scope here text).toOption = none := by
  have hword : Expr.evaluateWord scope text = .error e := by
    rw [Expr.evaluateWord, h]
    rfl
  unfold relativeByte
  split
  · rw [hword]
    rfl
  · rw [h]
    rfl

/-- The displacement byte of a jump. -/
lemma relativeByte_congr {text text' : String} (h : SameExpr text text') :
    (relativeByte scope here text).toOption = (relativeByte scope here text').toOption := by
  have hvalue : (Expr.evaluate scope text).toOption = (Expr.evaluate scope text').toOption :=
    h.evaluate_congr
  have hword : (Expr.evaluateWord scope text).toOption = (Expr.evaluateWord scope text').toOption :=
    h.evaluateWord_congr
  cases htext : Expr.evaluate scope text with
  | ok v =>
    rw [relativeByte, relativeByte, h.isPositionDependent_congr htext]
    split
    · exact toOption_bind_congr (by simpa using hword) fun _ _ => rfl
    · exact toOption_bind_congr (by simpa using hvalue) fun _ _ => rfl
  | error e =>
    cases htext' : Expr.evaluate scope text' with
    | ok v => simp [htext, htext', Except.toOption] at hvalue
    | error e' => rw [relativeByte_of_error htext, relativeByte_of_error htext']

namespace Operand.Same

variable {operand operand' : Operand} (h : operand.Same operand')

include h

/-- The displacement of an indexed operand. -/
lemma displacementByte_congr :
    displacementByte scope operand = displacementByte scope operand' := by
  rw [displacementByte, displacementByte, h.shape]

/-- **Operands that differ in letters outside literals have the same bytes**, or both none. -/
theorem encode_congr (slot : Slot) :
    (slot.encode scope here operand).toOption = (slot.encode scope here operand').toOption := by
  cases slot with
  | named | literal => rfl
  | byte | port =>
    refine toOption_map_congr _ ?_
    rw [toOption_liftExpr, toOption_liftExpr, h.text.evaluateByte_congr]
  | word | address =>
    refine toOption_map_congr _ ?_
    rw [toOption_liftExpr, toOption_liftExpr, h.text.evaluateWord_congr]
  | relative => exact toOption_map_congr _ (relativeByte_congr h.text)
  | indexed => rw [Slot.encode, Slot.encode, h.displacementByte_congr]

end Operand.Same

/-- The bytes of operands in their slots. -/
lemma encodeOperands_congr {filled filled' : List (Slot × Operand)}
    (h : List.Forall₂ Operand.SameFilled filled filled') :
    (encodeOperands scope here filled).toOption = (encodeOperands scope here filled').toOption := by
  induction h generalizing here with
  | nil => rfl
  | @cons first first' _ _ hsame _ ih =>
    obtain ⟨slot, operand⟩ := first
    obtain ⟨slot', operand'⟩ := first'
    obtain ⟨rfl, hoperand⟩ := hsame
    refine toOption_bind_congr (hoperand.encode_congr slot) fun bytes _ => ?_
    exact toOption_bind_congr ih fun _ _ => rfl

namespace Resolved

variable {operands operands' : List Operand} (h : List.Forall₂ Operand.Same operands operands')

include h

/-- The value of the first operand that is a byte. -/
lemma immediate?_congr (r : Resolved) :
    r.immediate? scope operands = r.immediate? scope operands' := by
  have key {filled filled' : List (Slot × Operand)}
      (hfilled : List.Forall₂ Operand.SameFilled filled filled') :
      ((filled.find? fun filled => filled.1 = .byte).bind fun filled =>
        (Expr.evaluateByte scope filled.2.text).toOption) =
      (filled'.find? fun filled => filled.1 = .byte).bind fun filled =>
        (Expr.evaluateByte scope filled.2.text).toOption := by
    induction hfilled with
    | nil => rfl
    | @cons first first' _ _ hsame _ ih =>
      simp only [List.find?_cons, hsame.1]
      split
      · exact hsame.2.text.evaluateByte_congr
      · exact ih
  have hbind (operands : List Operand) : r.immediate? scope operands =
      ((r.filled operands).find? fun filled => filled.1 = .byte).bind fun filled =>
        (Expr.evaluateByte scope filled.2.text).toOption := by
    rw [immediate?]
    cases (r.filled operands).find? fun filled => filled.1 = .byte <;> rfl
  rw [hbind, hbind, filled, filled, key (Operand.forall₂_zip h _)]

/-- **Instructions whose operands differ in letters outside literals have the same encoding**, or
both none. -/
theorem encode_congr (r : Resolved) :
    (r.encode scope operands).toOption = (r.encode scope operands').toOption := by
  rw [encode, encode, r.immediate?_congr h]
  exact toOption_bind_congr (encodeOperands_congr (Operand.forall₂_zip h _)) fun _ _ => rfl

end Resolved

/-- Instructions that differ in letters outside literals write the same bytes. -/
lemma instructionEmission_congr {operands operands' : List Operand} {word word' : String}
    (h : List.Forall₂ Operand.Same operands operands')
    (hword : Text.lower word = Text.lower word') :
    (instructionEmission scope word operands).toOption =
      (instructionEmission scope word' operands').toOption := by
  have hresolve : (resolve scope word operands).toOption =
      (resolve scope word' operands').toOption := resolve_congr h hword
  unfold instructionEmission
  cases hresolved : resolve scope word operands with
  | ok resolved =>
    rw [(toOption_eq_iff.1 hresolve resolved).1 hresolved]
    exact toOption_bind_congr (resolved.encode_congr h) fun _ _ => rfl
  | error e =>
    cases hresolved' : resolve scope word' operands' with
    | ok resolved => simp [hresolved, hresolved', Except.toOption] at hresolve
    | error e' => rfl

/-! ### Bytes of data -/

/-- A string starts and ends with the same quote. -/
lemma stringLiteral?_eq_some_iff {operand : String} {chars : List Char} :
    Source.stringLiteral? operand = some chars ↔
      ∃ q, (q = '\x22' ∨ q = '\x27') ∧ Text.trim operand.toList = q :: (chars ++ [q]) := by
  rw [Source.stringLiteral?]
  cases Text.trim operand.toList with
  | nil => simp
  | cons quote rest =>
    simp only [Bool.and_eq_true, Bool.or_eq_true, decide_eq_true_eq, Option.ite_none_right_eq_some,
      Option.some.injEq, List.cons.injEq]
    constructor
    · rintro ⟨⟨hquote, hlast⟩, rfl⟩
      exact ⟨quote, hquote, rfl, (List.dropLast_append_getLast? quote hlast).symm⟩
    · rintro ⟨q, hquote, rfl, rfl⟩
      exact ⟨⟨hquote, by simp⟩, by simp⟩

/-- What is a string is one in other case as well. -/
lemma isSome_stringLiteral?_of_foldText_eq {operand operand' : String}
    (h : foldText operand = foldText operand') (hstring : (Source.stringLiteral? operand).isSome) :
    (Source.stringLiteral? operand').isSome := by
  obtain ⟨chars, hchars⟩ := Option.isSome_iff_exists.1 hstring
  obtain ⟨q, hquote, heq⟩ := stringLiteral?_eq_some_iff.1 hchars
  have hletter : q.isAlpha = false := by rcases hquote with rfl | rfl <;> decide
  have hq := Text.toLower_of_isAlpha_eq_false hletter
  have hlower := Source.map_toLower_of_fold_eq (Source.foldText_eq_iff.1 h)
  have htrim : (Text.trim operand'.toList).map Char.toLower =
      q :: (chars.map Char.toLower ++ [q]) := by
    rw [← Source.trim_map_toLower, ← hlower, Source.trim_map_toLower, heq, List.map_cons,
      List.map_append, List.map_singleton, hq]
  obtain ⟨first, rest, hcons, hfirst, hrest⟩ := List.map_eq_cons_iff.1 htrim
  obtain ⟨chars', last, rfl, -, hlast⟩ := List.map_eq_append_iff.1 hrest
  obtain ⟨close, rfl, hclose⟩ := List.map_eq_singleton_iff.1 hlast
  rw [Text.toLower_eq_iff hletter] at hfirst hclose
  subst hfirst hclose
  exact Option.isSome_iff_exists.2 ⟨chars', stringLiteral?_eq_some_iff.2 ⟨_, hquote, hcons⟩⟩

/-- Texts all of whose characters belong to literals are the same if they differ at most in letters
outside literals. -/
lemma eq_of_forall_marked {text text' : String} (h : foldText text = foldText text')
    (hquoted : ∀ mark ∈ Source.marked text.toList, mark.2 = false) : text = text' := by
  have hsame := (Source.foldFrom_eq_foldFrom_iff (.refl .start)).1 (Source.foldText_eq_iff.1 h)
  have hboth := (List.forall₂_and_left _ _).2 ⟨hquoted, hsame⟩
  have hchars : List.Forall₂ (fun p q : Char × Bool => p.1 = q.1) (Source.marked text.toList)
      (Source.marked text'.toList) := by
    refine hboth.imp fun p q hpq => ?_
    obtain ⟨hmark, heq | ⟨hplain, -⟩⟩ := hpq
    · exact heq
    · rw [hmark] at hplain
      cases hplain
  have hfst := List.forall₂_map_right_iff.2 (List.forall₂_map_left_iff.2 hchars)
  rw [List.forall₂_eq_eq_eq, Source.marked, Source.marked, Source.map_fst_markedFrom,
    Source.map_fst_markedFrom] at hfst
  exact String.toList_inj.1 hfst

/-- Two operands of a bytes directive: the same string, or two expressions that differ in letters
outside literals. -/
def SameData (operand operand' : String) : Prop :=
  operand = operand' ∨ Source.stringLiteral? operand = none ∧
    Source.stringLiteral? operand' = none ∧ SameExpr operand operand'

/-- A clear operand of a bytes directive is the same string in other case, or an expression. -/
lemma sameData_of_foldText_eq {operand operand' : String} (hclear : Source.IsClearData operand)
    (h : foldText operand = foldText operand') : SameData operand operand' := by
  unfold Source.IsClearData at hclear
  split at hclear
  · exact .inl (eq_of_forall_marked h hclear)
  · next hnone =>
    refine .inr ⟨hnone, ?_, hclear, h⟩
    have hother := mt (isSome_stringLiteral?_of_foldText_eq h.symm) (by simp [hnone])
    simpa using hother

/-- Operands of a bytes directive are counted alike. -/
lemma byteCounts_congr {operands operands' : List String}
    (h : List.Forall₂ SameData operands operands') :
    byteCounts operands = byteCounts operands' := by
  induction h with
  | nil => rfl
  | cons hsame _ ih =>
    rw [byteCounts, byteCounts, ih]
    rcases hsame with rfl | ⟨hnone, hnone', -⟩
    · rfl
    · rw [byteCount, byteCount, hnone, hnone']

/-- An operand of a bytes directive in other case. -/
lemma SameData.operandBytes_congr {operand operand' : String} (h : SameData operand operand') :
    (operandBytes scope operand).toOption = (operandBytes scope operand').toOption := by
  rcases h with rfl | ⟨hnone, hnone', hsame⟩
  · rfl
  · rw [operandBytes, operandBytes, hnone, hnone']
    refine toOption_map_congr _ ?_
    rw [toOption_liftExpr, toOption_liftExpr, hsame.evaluateByte_congr]

/-- **Bytes of data in other case**, or none either. -/
theorem dataBytes_congr {operands operands' : List String}
    (h : List.Forall₂ SameData operands operands') :
    (dataBytes scope operands).toOption = (dataBytes scope operands').toOption := by
  induction h with
  | nil => rfl
  | cons hsame _ ih =>
    refine toOption_bind_congr hsame.operandBytes_congr fun _ _ => ?_
    exact toOption_bind_congr ih fun _ _ => rfl

/-- A word of an expression on a line. -/
lemma liftExpr_evaluateWord_congr {text text' : String} (h : SameExpr text text') :
    (liftExpr (Expr.evaluateWord scope text)).toOption =
      (liftExpr (Expr.evaluateWord scope text')).toOption := by
  rw [toOption_liftExpr, toOption_liftExpr, h.evaluateWord_congr]

/-- Words of data in other case. -/
lemma dataWords_congr {operands operands' : List String}
    (h : List.Forall₂ SameExpr operands operands') :
    (dataWords scope operands).toOption = (dataWords scope operands').toOption := by
  induction h with
  | nil => rfl
  | cons hsame _ ih =>
    refine toOption_bind_congr (liftExpr_evaluateWord_congr hsame) fun _ _ => ?_
    exact toOption_bind_congr ih fun _ _ => rfl

/-! ### Statements -/

namespace Source.Statement

/-- Two statements that differ in letters outside literals. -/
inductive Same : Statement → Statement → Prop
  | empty : Same .empty .empty
  | segment (target : Segment) : Same (.segment target) (.segment target)
  | origin {text text' : String} (h : SameExpr text text') : Same (.origin text) (.origin text')
  | bytes {operands operands' : List String} (h : List.Forall₂ SameData operands operands') :
      Same (.bytes operands) (.bytes operands')
  | words {operands operands' : List String} (h : List.Forall₂ SameExpr operands operands') :
      Same (.words operands) (.words operands')
  | space {text text' : String} (h : SameExpr text text') : Same (.space text) (.space text')
  | stop : Same .stop .stop
  | instruction {word word' : String} {operands operands' : List String}
      (hword : Text.lower word = Text.lower word') (h : List.Forall₂ SameExpr operands operands') :
      Same (.instruction word operands) (.instruction word' operands')

/-- **Clear statements that fold alike** differ in letters outside literals. -/
theorem same_of_fold_eq {statement statement' : Statement} (hclear : statement.IsClear)
    (h : statement.fold = statement'.fold) : statement.Same statement' := by
  match statement, statement' with
  | .empty, .empty => exact .empty
  | .stop, .stop => exact .stop
  | .segment target, .segment target' =>
    obtain rfl := Statement.segment.inj h
    exact .segment target
  | .origin text, .origin text' => exact .origin ⟨hclear, Statement.origin.inj h⟩
  | .space text, .space text' => exact .space ⟨hclear, Statement.space.inj h⟩
  | .bytes operands, .bytes operands' =>
    have hboth := (List.forall₂_and_left _ _).2
      ⟨hclear, forall₂_of_map_foldText_eq (Statement.bytes.inj h)⟩
    exact .bytes (hboth.imp fun _ _ hsame => sameData_of_foldText_eq hsame.1 hsame.2)
  | .words operands, .words operands' =>
    exact .words (forall₂_sameExpr hclear (Statement.words.inj h))
  | .instruction word operands, .instruction word' operands' =>
    obtain ⟨hword, hoperands⟩ := Statement.instruction.inj h
    exact .instruction (lower_of_foldText_eq hword) (forall₂_sameExpr hclear hoperands)

/-- **Statements that differ in letters outside literals write the same bytes**, or both none. -/
theorem Same.emission?_congr {statement statement' : Statement} (h : statement.Same statement') :
    (statement.emission? scope).toOption = (statement'.emission? scope).toOption := by
  cases h with
  | empty | segment | origin | stop => rfl
  | bytes hoperands => exact toOption_bind_congr (dataBytes_congr hoperands) fun _ _ => rfl
  | words hoperands => exact toOption_bind_congr (dataWords_congr hoperands) fun _ _ => rfl
  | space hsize => exact toOption_bind_congr (liftExpr_evaluateWord_congr hsize) fun _ _ => rfl
  | instruction hword hoperands =>
    exact toOption_map_congr _
      (instructionEmission_congr (Operand.forall₂_same hoperands) hword)

end Source.Statement

end Z80
