import Z80.Proofs.Result
import Z80.Proofs.Source.Fold

/-!
# Lines that differ in letter case

Two lines that differ only in letters outside literals define the same name, up to case, and hold
the same statement, up to the case of letters outside literals in its operands.

## Main definitions

* `Z80.Source.SameLine` — lines that differ in letters outside literals, and in their comments.
* `Z80.Source.foldText` — a text with the letters outside its literals in lower case.
* `Z80.Source.Line.fold`, `Z80.Source.Statement.fold` — the parts of a line, each folded.

## Main results

* `Z80.Source.Line.ofText_congr` — the parts of two such lines.
* `Z80.Source.Statement.ofText_congr` — their statements.

## Design

A constant that is defined without a colon is named by the first word of its line.  If a literal is
left open in that word, the value behind it starts inside the literal for the line, but outside
for whoever reads the value.  This is why the name is asked to be closed.
-/

namespace Z80.Source

open Text (isBlank trim)

/-! ### Definitions -/

/-- Whether two lines up to their comments differ only in letters outside literals. -/
def SameLine (text text' : String) : Prop :=
  List.Forall₂ SameMarked (marked (stripComment text.toList)) (marked (stripComment text'.toList))

instance : DecidableRel SameLine := fun text text' =>
  decidable_of_iff (fold (stripComment text.toList) = fold (stripComment text'.toList))
    (foldFrom_eq_foldFrom_iff (.refl .start))

/-- A text with the letters outside its literals in lower case. -/
def foldText (text : String) : String :=
  String.ofList (fold text.toList)

/-- A name that a line defines, and its value, folded. -/
def Definition.fold : Definition → Definition
  | .label name => .label (foldText name)
  | .constant name value => .constant (foldText name) (foldText value)

/-- The parts of a line, folded. -/
def Line.fold (line : Line) : Line :=
  ⟨line.definition.map Definition.fold, foldText line.statement⟩

/-- A statement with its operands folded. -/
def Statement.fold : Statement → Statement
  | .empty => .empty
  | .segment target => .segment target
  | .origin address => .origin (foldText address)
  | .bytes operands => .bytes (operands.map foldText)
  | .words operands => .words (operands.map foldText)
  | .space size => .space (foldText size)
  | .stop => .stop
  | .instruction word operands => .instruction (foldText word) (operands.map foldText)

variable {cs ds : List Char}

/-- The characters of a folded text. -/
@[simp]
lemma foldText_ofList (cs : List Char) : foldText (String.ofList cs) = String.ofList (fold cs) := by
  rw [foldText, String.toList_ofList]

/-- Texts fold alike if their characters do. -/
lemma foldText_eq_iff {text text' : String} :
    foldText text = foldText text' ↔ fold text.toList = fold text'.toList :=
  String.ofList_inj

/-- Texts that fold alike are the same in lower case. -/
lemma map_toLower_of_fold_eq (h : fold cs = fold ds) :
    cs.map Char.toLower = ds.map Char.toLower := by
  rw [← map_toLower_fold cs, h, map_toLower_fold]

/-- Names that fold alike are the same name. -/
lemma lower_of_foldText_eq {name name' : String} (h : foldText name = foldText name') :
    Text.lower name = Text.lower name' :=
  congrArg String.ofList (map_toLower_of_fold_eq (foldText_eq_iff.1 h))

/-- Texts that are the same in lower case are empty alike. -/
lemma isEmpty_of_map_toLower_eq (h : cs.map Char.toLower = ds.map Char.toLower) :
    cs.isEmpty = ds.isEmpty := by
  simpa using congrArg List.isEmpty h

/-- Folding leaves nothing out. -/
@[simp]
lemma isEmpty_fold (cs : List Char) : (fold cs).isEmpty = cs.isEmpty :=
  isEmpty_of_map_toLower_eq (map_toLower_fold cs)

/-! ### Words -/

/-- A text in lower case is trimmed alike. -/
lemma trim_map_toLower (cs : List Char) :
    trim (cs.map Char.toLower) = (trim cs).map Char.toLower := by
  have hblank : (isBlank ∘ Char.toLower) = isBlank := funext Text.isBlank_toLower
  simp only [trim, Text.trimStart, Text.trimEnd, List.dropWhile_map, hblank, ← List.map_reverse]

/-- A text in lower case has the same words. -/
lemma splitWord_map_toLower (cs : List Char) :
    splitWord (cs.map Char.toLower) =
      ((splitWord cs).1.map Char.toLower, (splitWord cs).2.map Char.toLower) := by
  have hword : ((fun c => !isBlank c) ∘ Char.toLower) = fun c => !isBlank c :=
    funext not_isBlank_toLower
  simp only [splitWord, trim_map_toLower, List.takeWhile_map, List.dropWhile_map, hword]

/-- Texts that are the same in lower case have the same words in lower case. -/
lemma splitWord_lower_congr (h : cs.map Char.toLower = ds.map Char.toLower) :
    (splitWord cs).1.map Char.toLower = (splitWord ds).1.map Char.toLower ∧
      (splitWord cs).2.map Char.toLower = (splitWord ds).2.map Char.toLower := by
  have key := congrArg splitWord h
  rw [splitWord_map_toLower, splitWord_map_toLower] at key
  exact Prod.mk.inj key

/-- Texts that fold alike have words that fold alike, and what follows the words folds alike if no
literal is left open in them. -/
lemma splitWord_congr (h : fold cs = fold ds) :
    fold (splitWord cs).1 = fold (splitWord ds).1 ∧
      (IsClosed (splitWord cs).1 → fold (splitWord cs).2 = fold (splitWord ds).2) := by
  have hword : fold (splitWord cs).1 = fold (splitWord ds).1 := by
    rw [← splitWord_fold_fst, h, splitWord_fold_fst]
  refine ⟨hword, fun hclosed => ?_⟩
  have hclosed' : IsClosed (splitWord ds).1 := by
    rwa [← isClosed_fold, ← hword, isClosed_fold]
  have key := splitWord_fold hclosed
  rw [h, splitWord_fold hclosed'] at key
  exact (Prod.mk.inj key).2.symm

/-- Whether none of the characters is a quote. -/
def hasNoQuote (cs : List Char) : Bool :=
  cs.all fun c => c ≠ '\x22' && c ≠ '\x27'

/-- No literal is left open in a word that is spelled without quotes. -/
lemma isClosed_of_lower {spelling : String} (h : String.ofList (cs.map Char.toLower) = spelling)
    (hplain : hasNoQuote spelling.toList = true) : IsClosed cs := by
  have hlower : cs.map Char.toLower = spelling.toList := by rw [← h, String.toList_ofList]
  refine quote_behind rfl fun c hc => ?_
  have hmem : c.toLower ∈ spelling.toList := hlower ▸ List.mem_map_of_mem hc
  have hletter := List.all_eq_true.1 hplain _ hmem
  constructor
  all_goals
    rintro rfl
    exact absurd hletter (by decide)

/-- No literal is left open in the word `equ`. -/
lemma isClosed_of_isEqu (h : isEqu cs = true) : IsClosed cs := by
  have hlower : cs.map Char.toLower = ['e', 'q', 'u'] := of_decide_eq_true h
  have hspelling : String.ofList (cs.map Char.toLower) = "equ" := by rw [hlower]
  exact isClosed_of_lower hspelling (by decide)

/-- The word `equ` is told by its letters in lower case. -/
lemma isEqu_congr (h : cs.map Char.toLower = ds.map Char.toLower) : isEqu cs = isEqu ds := by
  rw [isEqu, isEqu, h]

/-! ### Lines -/

/-- What is in front of a colon folds alike, and so does what is behind it. -/
lemma splitAtUnquoted?_congr (h : fold cs = fold ds) {d : Char} (hd : d.isAlpha = false)
    (hdouble : d ≠ '\x22') (hsingle : d ≠ '\x27') :
    (splitAtUnquoted? d cs).map (Prod.map fold fold) =
      (splitAtUnquoted? d ds).map (Prod.map fold fold) := by
  have key (text : List Char) : splitAtUnquoted? d (fold text) =
      (splitAtUnquoted? d text).map (Prod.map fold fold) :=
    splitAtMark?_foldFrom (.refl .start) hd hdouble hsingle text
  rw [← key, ← key, h]

/-- A folded name in front of a colon. -/
lemma labelName_fold (before : List Char) :
    (labelName (Source.fold before)).toOption = (labelName before).toOption.map Source.fold := by
  have hany (name : List Char) : (Source.fold name).any isBlank = name.any isBlank := by
    have key := congrArg (List.any · isBlank) (map_toLower_fold name)
    simpa only [List.any_map, Function.comp_def, Text.isBlank_toLower] using key
  simp only [labelName, trim_fold, isEmpty_fold, hany]
  split
  · rfl
  · split <;> rfl

namespace Line

variable {line : Line}

/-- The parts of lines with names in front of colons. -/
lemma ofLabelled_congr {name name' rest rest' : List Char}
    (hname : Source.fold name = Source.fold name') (hrest : Source.fold rest = Source.fold rest') :
    (ofLabelled name rest).fold = (ofLabelled name' rest').fold := by
  have hequ : isEqu (splitWord rest).1 = isEqu (splitWord rest').1 :=
    isEqu_congr (splitWord_lower_congr (map_toLower_of_fold_eq hrest)).1
  simp only [ofLabelled, ← hequ]
  split
  · next hconstant =>
    have hvalue := (splitWord_congr hrest).2 (isClosed_of_isEqu hconstant)
    simp [Line.fold, Definition.fold, hname, hvalue]
  · simp [Line.fold, Definition.fold, hname, ← trim_fold, hrest]

/-- The parts of lines without colons. -/
lemma ofUnlabelled_congr {text text' : List Char} (h : Source.fold text = Source.fold text')
    (hclosed : ∀ name value, (ofUnlabelled text).definition = some (.constant name value) →
      IsClosed name.toList) :
    (ofUnlabelled text).fold = (ofUnlabelled text').fold := by
  obtain ⟨hfirst, hrest⟩ := splitWord_lower_congr (map_toLower_of_fold_eq h)
  have hequ : isEqu (splitWord (splitWord text).2).1 = isEqu (splitWord (splitWord text').2).1 :=
    isEqu_congr (splitWord_lower_congr hrest).1
  simp only [ofUnlabelled, ← hequ, ← isEmpty_of_map_toLower_eq hfirst] at hclosed ⊢
  split
  · next hconstant =>
    rw [if_pos hconstant] at hclosed
    rw [Bool.and_eq_true] at hconstant
    have hname := hclosed _ _ rfl
    rw [String.toList_ofList] at hname
    obtain ⟨hword, hbehind⟩ := splitWord_congr h
    have hvalue := (splitWord_congr (hbehind hname)).2 (isClosed_of_isEqu hconstant.1)
    simp [Line.fold, Definition.fold, hword, hvalue]
  · simp [Line.fold, ← trim_fold, h]

/-- The parts of lines without comments and character literals. -/
lemma ofPrepared_congr {text text' : List Char} (h : Source.fold text = Source.fold text')
    (hline : ofPrepared text = .ok line)
    (hclosed : ∀ name value, line.definition = some (.constant name value) →
      IsClosed name.toList) :
    ∃ line', ofPrepared text' = .ok line' ∧ line.fold = line'.fold := by
  have hcut := splitAtUnquoted?_congr h (d := ':') (by decide) (by decide) (by decide)
  unfold ofPrepared at hline ⊢
  cases hsplit : splitAtUnquoted? ':' text with
  | none =>
    rw [hsplit, Option.map_none, eq_comm, Option.map_eq_none_iff] at hcut
    simp only [hsplit, hcut] at hline ⊢
    obtain rfl := Except.ok.inj hline
    exact ⟨_, rfl, ofUnlabelled_congr h hclosed⟩
  | some parts =>
    obtain ⟨before, rest⟩ := parts
    rw [hsplit, Option.map_some, eq_comm, Option.map_eq_some_iff] at hcut
    obtain ⟨⟨before', rest'⟩, hsplit', hparts⟩ := hcut
    obtain ⟨hbefore, hrest⟩ := Prod.mk.inj hparts
    simp only [hsplit, hsplit'] at hline ⊢
    obtain ⟨name, hname, rfl⟩ := map_eq_ok_iff.1 hline
    have hnames : (labelName before').toOption.map Source.fold = some (Source.fold name) := by
      rw [← labelName_fold, hbefore, labelName_fold, hname]
      rfl
    obtain ⟨name', hname', heq⟩ := Option.map_eq_some_iff.1 hnames
    cases hresult : labelName before' with
    | error fault => simp [hresult, Except.toOption] at hname'
    | ok found =>
      obtain rfl : found = name' := by simpa [hresult, Except.toOption] using hname'
      exact ⟨_, rfl, ofLabelled_congr heq.symm hrest.symm⟩

/-- **Lines that differ in letters outside literals have parts that do.** -/
theorem ofText_congr {text text' : String} (h : SameLine text text')
    (hline : ofText text = .ok line)
    (hclosed : ∀ name value, line.definition = some (.constant name value) →
      IsClosed name.toList) :
    ∃ line', ofText text' = .ok line' ∧ line.fold = line'.fold := by
  have hvisible :
      Source.fold (stripComment text.toList) = Source.fold (stripComment text'.toList) :=
    (foldFrom_eq_foldFrom_iff (.refl .start)).2 h
  refine ofPrepared_congr ?_ hline hclosed
  rw [← fold_replaceCharLiterals, hvisible, fold_replaceCharLiterals]

end Line

/-! ### Statements -/

namespace Statement

/-- The folded operand of a directive that takes one. -/
lemma oneOperand_fold (directive : String) (rest : List Char) :
    oneOperand directive (Source.fold rest) = (oneOperand directive rest).map foldText := by
  rw [oneOperand, oneOperand, splitOperandChars_fold]
  rcases splitOperandChars rest with _ | ⟨operand, _ | ⟨next, more⟩⟩
  · rfl
  · simp only [List.map_cons, List.map_nil, isEmpty_fold]
    split
    · rfl
    · simp [Except.map]
  · rfl

/-- Folded operands are empty alike. -/
lemma any_isEmpty_fold (operands : List (List Char)) :
    (operands.map Source.fold).any List.isEmpty = operands.any List.isEmpty := by
  rw [List.any_map]
  exact congrArg (operands.any ·) (funext isEmpty_fold)

/-- Folded operands as strings. -/
lemma map_ofList_fold (operands : List (List Char)) :
    (operands.map Source.fold).map String.ofList = (operands.map String.ofList).map foldText := by
  simp

/-- The folded operands of a directive that takes at least one. -/
lemma someOperands_fold (directive : String) (rest : List Char) :
    someOperands directive (Source.fold rest) =
      (someOperands directive rest).map (List.map foldText) := by
  simp only [someOperands, splitOperandChars_fold, any_isEmpty_fold, List.isEmpty_map,
    map_ofList_fold]
  split <;> rfl

/-- A directive with its operands folded. -/
lemma ofDirective_fold (directive : Directive) (word : String) (rest : List Char) :
    ofDirective directive word (Source.fold rest) =
      (ofDirective directive word rest).map Statement.fold := by
  cases directive with
  | origin | space =>
    simp only [ofDirective, oneOperand_fold]
    cases oneOperand word rest <;> rfl
  | bytes | words =>
    simp only [ofDirective, someOperands_fold]
    cases someOperands word rest <;> rfl
  | stop | constant => rfl

/-- Directives are spelled without quotes. -/
lemma Directive.isClosed_of_ofWord? {directive : Directive} {word : List Char}
    (h : Directive.ofWord? (String.ofList (word.map Char.toLower)) = some directive) :
    IsClosed word := by
  let spellings := ["org", ".org", "db", ".db", "defb", ".text", "dw", ".dw", "defw", "ds", ".ds",
    "defs", "end", ".end", "equ"]
  have hplain : ∀ spelling ∈ spellings, hasNoQuote spelling.toList = true := by decide
  have hspelling : String.ofList (word.map Char.toLower) ∈ spellings := by
    by_contra hnone
    simp only [spellings, List.mem_cons, List.not_mem_nil, or_false, not_or] at hnone
    simp [Directive.ofWord?, hnone] at h
  exact isClosed_of_lower rfl (hplain _ hspelling)

/-- **Texts that differ in letters outside literals hold statements that do.**

**Proof sketch.** The words are the same in lower case, so they are the same directive or both
none.  Directives are spelled without quotes, and then what follows the word is folded alike. -/
theorem ofText_congr {text text' : String} {statement : Statement}
    (h : foldText text = foldText text') (hstatement : ofText text = .ok statement)
    (hclosed : ∀ word operands, statement = .instruction word operands →
      IsClosed word.toList) :
    ∃ statement', ofText text' = .ok statement' ∧ statement.fold = statement'.fold := by
  rw [foldText_eq_iff] at h
  obtain ⟨hlower, hrest⟩ := splitWord_lower_congr (map_toLower_of_fold_eq h)
  obtain ⟨hword, hbehind⟩ := splitWord_congr h
  simp only [ofText, ← hlower, ← isEmpty_of_map_toLower_eq hlower,
    ← isEmpty_of_map_toLower_eq hrest] at hstatement ⊢
  split at hstatement
  · next hempty =>
    obtain rfl := Except.ok.inj hstatement
    exact ⟨_, if_pos hempty, rfl⟩
  · next hempty =>
    rw [if_neg hempty]
    split at hstatement
    · next target _ =>
      split at hstatement
      · next hnone =>
        obtain rfl := Except.ok.inj hstatement
        exact ⟨_, if_pos hnone, rfl⟩
      · cases hstatement
    · split at hstatement
      · next directive hdirective =>
        have key := hbehind (Directive.isClosed_of_ofWord? hdirective)
        have hfold := congrArg (ofDirective directive
          (String.ofList ((splitWord text.toList).1.map Char.toLower))) key
        rw [ofDirective_fold, ofDirective_fold, hstatement] at hfold
        obtain ⟨statement', hstatement', heq⟩ := map_eq_ok_iff.1 hfold.symm
        exact ⟨statement', hstatement', heq.symm⟩
      · split at hstatement
        · cases hstatement
        · next hoperands =>
          obtain rfl := Except.ok.inj hstatement
          have hname := hclosed _ _ rfl
          rw [String.toList_ofList] at hname
          have key := congrArg splitOperandChars (hbehind hname)
          rw [splitOperandChars_fold, splitOperandChars_fold] at key
          have hany := congrArg (List.any · List.isEmpty) key
          simp only [any_isEmpty_fold] at hany
          rw [← hany, if_neg hoperands]
          refine ⟨_, rfl, ?_⟩
          simp only [Statement.fold, ← map_ofList_fold, key, foldText_ofList, hword]

end Statement

end Z80.Source
