import Mathlib.Data.List.TakeWhile
import Z80.Proofs.Source.Operands

/-!
# Machine-made lines read back

A line that is put together from a word, operands with commas between them, and a comment is taken
apart into just these.  The same holds for the lines that define a name.

## Main definitions

* `Z80.Source.IsBare` — characters that have no meaning of their own in a line.
* `Z80.Source.IsPiece` — the characters of an operand that goes without blanks.
* `Z80.Source.statementChars` — a word and operands as a statement.
* `Z80.Source.ReadsAs` — the name that a line defines and its statement.

## Main results

* `Z80.Source.splitOperandChars_joined` — operands with commas between them are split again.
* `Z80.Source.ofText_statement` — a statement is taken apart into its word and operands.
* `Z80.Source.ofText_instruction`, `Z80.Source.ofText_directive` — its word tells what it is.
* `Z80.Source.readsAs_constant`, `Z80.Source.readsAs_label` — the lines that define names.
-/

namespace Z80.Source

open Z80.Expr (isWordChar isBlank_of_isWordChar)
open Text (isBlank IsTrimmed)

/-! ### Characters outside literals -/

/-- Characters none of which is a quote, a comment sign or a colon. -/
def IsBare (cs : List Char) : Prop :=
  ∀ c ∈ cs, c ≠ '\x22' ∧ c ≠ '\x27' ∧ c ≠ ';' ∧ c ≠ ':'

lemma IsBare.append {cs ds : List Char} (hcs : IsBare cs) (hds : IsBare ds) : IsBare (cs ++ ds) :=
  fun c hc => (List.mem_append.1 hc).elim (hcs c) (hds c)

/-- Characters without quotes stand outside literals. -/
lemma markedFrom_of_isBare {r : Reading} (hr : r.quote = none) {cs : List Char} (h : IsBare cs) :
    markedFrom r cs = cs.map fun c => (c, true) :=
  markedFrom_of_ne_quote hr fun c hc => ⟨(h c hc).1, (h c hc).2.1⟩

/-- A line without quotes is cut at the first character that it is searched for. -/
lemma splitAtMark?_append {r : Reading} (hr : r.quote = none) {before after : List Char}
    (h : IsBare before) {d : Char} (hd : d ∉ before) (hplain : d ≠ '\x22' ∧ d ≠ '\x27') :
    splitAtMark? d (markedFrom r (before ++ d :: after)) = some (before, after) := by
  induction before generalizing r with
  | nil =>
    have hmark : r.isPlain d = true := by
      simp [Reading.isPlain, hr, opens_eq_false hplain.1 hplain.2]
    rw [List.nil_append, markedFrom, splitAtMark?, hmark, map_fst_markedFrom]
    simp
  | cons c before ih =>
    obtain ⟨hdouble, hsingle, -⟩ := h c List.mem_cons_self
    rw [List.mem_cons, not_or] at hd
    have hrest := ih (quote_next hr hdouble hsingle)
      (fun e he => h e (List.mem_cons_of_mem _ he)) hd.2
    have hne : c ≠ d := fun heq => hd.1 heq.symm
    rw [List.cons_append, markedFrom, splitAtMark?, if_neg (by simp [hne]), hrest]
    rfl

/-- A line is not cut where a character does not occur. -/
lemma splitAtMark?_eq_none {d : Char} {marks : List (Char × Bool)} (h : d ∉ marks.map Prod.fst) :
    splitAtMark? d marks = none := by
  induction marks with
  | nil => rfl
  | cons mark marks ih =>
    obtain ⟨c, isPlain⟩ := mark
    rw [List.map_cons, List.mem_cons, not_or] at h
    have hne : c ≠ d := fun heq => h.1 heq.symm
    rw [splitAtMark?, if_neg (by simp [hne]), ih h.2]
    rfl

/-- The comment of a line is cut off. -/
lemma stripComment_append {cs : List Char} (h : IsBare cs) (comment : List Char) :
    stripComment (cs ++ ';' :: comment) = cs := by
  have hnone : ';' ∉ cs := fun hmem => (h _ hmem).2.2.1 rfl
  have key : splitAtUnquoted? ';' (cs ++ ';' :: comment) = some (cs, comment) :=
    splitAtMark?_append rfl h hnone (by decide)
  rw [stripComment, key]

/-- A line without a comment is as it was. -/
lemma stripComment_eq_self {cs : List Char} (h : ';' ∉ cs) : stripComment cs = cs := by
  have key : splitAtUnquoted? ';' cs = none :=
    splitAtMark?_eq_none (by rwa [marked, map_fst_markedFrom])
  rw [stripComment, key]

/-- Where there is no apostrophe there is no character literal. -/
lemma replaceFrom_eq_self {cs : List Char} (h : '\x27' ∉ cs) (r : Reading) :
    replaceFrom r cs = cs := by
  induction cs generalizing r with
  | nil => rw [replaceFrom]
  | cons c cs ih =>
    rw [List.mem_cons, not_or] at h
    unfold replaceFrom
    split
    · next heq => cases heq
    · next heq =>
      obtain ⟨rfl, -⟩ := List.cons.inj heq
      exact absurd rfl h.1
    · next heq =>
      obtain ⟨rfl, rfl⟩ := List.cons.inj heq
      rw [ih h.2]

/-! ### Operands -/

/-- Characters of operands. -/
def isPieceChar (c : Char) : Bool :=
  isWordChar c || c = '+' || c = '-' || c = '$'

/-- The characters of an operand without blanks, alone or in parentheses. -/
structure IsPiece (cs : List Char) : Prop where
  ne_nil : cs ≠ []
  shape : (∀ c ∈ cs, isPieceChar c) ∨
    ∃ inner, cs = '(' :: inner ++ [')'] ∧ ∀ c ∈ inner, isPieceChar c
  not_isEqu : isEqu cs = false

/-- Characters of operands have no meaning to lines. -/
lemma isBare_of_isPieceChar {cs : List Char} (h : ∀ c ∈ cs, isPieceChar c) : IsBare cs := by
  intro c hc
  have hpiece := h c hc
  refine ⟨?_, ?_, ?_, ?_⟩
  all_goals
    rintro rfl
    exact absurd hpiece (by decide)

/-- Characters of operands are not blank. -/
lemma isBlank_of_isPieceChar {c : Char} (h : isPieceChar c) : isBlank c = false := by
  simp only [isPieceChar, Bool.or_eq_true, decide_eq_true_eq] at h
  rcases h with ((hword | rfl) | rfl) | rfl
  · exact isBlank_of_isWordChar hword
  all_goals decide

namespace IsPiece

variable {cs : List Char}

/-- An operand in parentheses. -/
lemma enclosed {inner : List Char} (h : ∀ c ∈ inner, isPieceChar c) :
    IsPiece ('(' :: inner ++ [')']) where
  ne_nil := by simp
  shape := .inr ⟨inner, rfl, h⟩
  not_isEqu := by simp [isEqu]

/-- What is so of the characters of operands and of parentheses is so of all characters. -/
lemma forall_mem {p : Char → Prop} (h : IsPiece cs) (hchar : ∀ c, isPieceChar c → p c)
    (hopening : p '(') (hclosing : p ')') : ∀ c ∈ cs, p c := by
  rcases h.shape with hfree | ⟨inner, rfl, hinner⟩
  · exact fun c hc => hchar c (hfree c hc)
  · intro c hc
    simp only [List.cons_append, List.mem_cons, List.mem_append, List.not_mem_nil, or_false] at hc
    rcases hc with rfl | hmem | rfl
    · exact hopening
    · exact hchar c (hinner c hmem)
    · exact hclosing

lemma isBare (h : IsPiece cs) : IsBare cs := by
  refine h.forall_mem (fun c hc => ?_) (by decide) (by decide)
  exact isBare_of_isPieceChar (List.forall_mem_singleton.2 hc) c (List.mem_singleton_self c)

/-- An operand holds no blank. -/
lemma isBlank_eq_false (h : IsPiece cs) : ∀ c ∈ cs, isBlank c = false :=
  h.forall_mem (fun _ => isBlank_of_isPieceChar) (by decide) (by decide)

/-- An operand holds no comma. -/
lemma comma_notMem (h : IsPiece cs) : ',' ∉ cs := by
  intro hmem
  refine h.forall_mem (p := (· ≠ ',')) ?_ (by decide) (by decide) ',' hmem rfl
  rintro c hc rfl
  exact absurd hc (by decide)

/-- The only parentheses of an operand are its first and last characters. -/
lemma depthBehind_marked (h : IsPiece cs) : depthBehind (marked cs) = 0 := by
  have hfree {cs : List Char} (hcs : ∀ c ∈ cs, isPieceChar c) : depthBehind (marked cs) = 0 :=
    depthBehind_markedFrom (fun hmem => absurd (hcs _ hmem) (by decide))
      fun hmem => absurd (hcs _ hmem) (by decide)
  have hmarked : marked cs = cs.map fun c => (c, true) := markedFrom_of_isBare rfl h.isBare
  rcases h.shape with hcs | ⟨inner, rfl, hinner⟩
  · exact hfree hcs
  · have hinside : marked inner = inner.map fun c => (c, true) :=
      markedFrom_of_isBare rfl (isBare_of_isPieceChar hinner)
    rw [hmarked, List.cons_append, List.map_cons, List.map_append, ← hinside, depthBehind_cons,
      depthBehind_append, hfree hinner]
    rfl

/-- It stands alone between commas. -/
lemma isOperand (h : IsPiece cs) : IsOperand cs where
  ne_nil := h.ne_nil
  isTrimmed := Text.isTrimmed_of_forall h.isBlank_eq_false
  isClosed := quote_behind rfl fun c hc => ⟨(h.isBare c hc).1, (h.isBare c hc).2.1⟩
  depth_eq := h.depthBehind_marked
  comma_inside front hfront := absurd hfront (not_prefix_of_comma_notMem h.comma_notMem front)

end IsPiece

/-- Operands with commas between them. -/
def joined (pieces : List (List Char)) : List Char :=
  [','].intercalate pieces

/-- The first operand stands in front of the first comma. -/
lemma joined_cons_cons (piece next : List Char) (pieces : List (List Char)) :
    joined (piece :: next :: pieces) = piece ++ ',' :: joined (next :: pieces) := by
  simp [joined, List.intercalate]

lemma joined_singleton (piece : List Char) : joined [piece] = piece := by
  simp [joined, List.intercalate]

/-- Operands with commas between them hold no blank and nothing with a meaning to lines. -/
lemma isBare_joined {pieces : List (List Char)} (h : ∀ piece ∈ pieces, IsPiece piece) :
    IsBare (joined pieces) ∧ ∀ c ∈ joined pieces, isBlank c = false := by
  induction pieces with
  | nil => simp [joined, List.intercalate, IsBare]
  | cons piece pieces ih =>
    have hpiece := h piece List.mem_cons_self
    cases pieces with
    | nil =>
      rw [joined_singleton]
      exact ⟨hpiece.isBare, hpiece.isBlank_eq_false⟩
    | cons next pieces =>
      obtain ⟨hbare, hblank⟩ := ih fun p hp => h p (List.mem_cons_of_mem _ hp)
      rw [joined_cons_cons]
      constructor
      · have hcomma : IsBare [','] := by simp [IsBare]
        exact hpiece.isBare.append (hcomma.append hbare)
      · intro c hc
        rw [List.mem_append, List.mem_cons] at hc
        rcases hc with hmem | rfl | hmem
        · exact hpiece.isBlank_eq_false c hmem
        · decide
        · exact hblank c hmem

/-- Operands with commas between them are not nothing. -/
lemma joined_ne_nil {piece : List Char} {pieces : List (List Char)}
    (h : ∀ p ∈ piece :: pieces, IsPiece p) : joined (piece :: pieces) ≠ [] := by
  have hpiece := (h piece List.mem_cons_self).ne_nil
  cases pieces with
  | nil => rwa [joined_singleton]
  | cons next pieces => simp [joined_cons_cons]

/-- Operands with commas between them are put together without blanks. -/
lemma isJoined_joined (piece : List Char) (pieces : List (List Char)) :
    IsJoined (piece :: pieces) (joined (piece :: pieces)) := by
  induction pieces generalizing piece with
  | nil =>
    rw [joined_singleton]
    exact .single piece
  | cons next pieces ih =>
    have hnone : ∀ c ∈ ([] : List Char), isBlank c := by simp
    have key := IsJoined.cons piece hnone hnone (ih next)
    rw [List.nil_append, List.append_assoc] at key
    rwa [joined_cons_cons]

/-- **Operands with commas between them are split again.** -/
theorem splitOperandChars_joined {pieces : List (List Char)}
    (h : ∀ piece ∈ pieces, IsPiece piece) : splitOperandChars (joined pieces) = pieces := by
  cases pieces with
  | nil => rfl
  | cons piece pieces =>
    refine splitOperandChars_of_isJoined (isJoined_joined piece pieces) fun p hp => ?_
    exact (h p hp).isOperand

/-! ### Statements -/

/-- A word and operands as a statement. -/
def statementChars (word : List Char) (pieces : List (List Char)) : List Char :=
  if pieces.isEmpty then word else word ++ ' ' :: joined pieces

section Statement

variable {word : List Char} {pieces : List (List Char)}

/-- The first word of a text without blanks around it. -/
lemma splitWord_append {text rest : List Char} (htrim : Text.trim text = word ++ ' ' :: rest)
    (hword : ∀ c ∈ word, isBlank c = false) (hrest : IsTrimmed rest) :
    splitWord text = (word, rest) := by
  have htake : (word ++ ' ' :: rest).takeWhile (fun c => !isBlank c) = word := by
    rw [List.takeWhile_append_of_pos fun c hc => by simp [hword c hc]]
    simp [show isBlank ' ' = true by decide]
  have hdrop : (word ++ ' ' :: rest).dropWhile (fun c => !isBlank c) = ' ' :: rest := by
    rw [List.dropWhile_append_of_pos fun c hc => by simp [hword c hc]]
    simp [show isBlank ' ' = true by decide]
  have hblank : ∀ c ∈ [' '], isBlank c := List.all_eq_true.1 (by decide)
  have hnone : ∀ c ∈ ([] : List Char), isBlank c := by simp
  have htrimmed : Text.trim (' ' :: rest) = rest := by
    have key := Text.trim_append hrest hblank hnone
    rwa [List.append_nil] at key
  simp only [splitWord, htrim, htake, hdrop, htrimmed]

/-- A text that is a word has nothing behind it. -/
lemma splitWord_word {text : List Char} (htrim : Text.trim text = word)
    (hword : ∀ c ∈ word, isBlank c = false) : splitWord text = (word, []) := by
  have htake : word.takeWhile (fun c => !isBlank c) = word := by
    rw [List.takeWhile_eq_self_iff]
    intro c hc
    simp [hword c hc]
  have hdrop : word.dropWhile (fun c => !isBlank c) = [] := by
    rw [List.dropWhile_eq_nil_iff]
    intro c hc
    simp [hword c hc]
  simp only [splitWord, htrim, htake, hdrop]
  rfl

variable (hpieces : ∀ piece ∈ pieces, IsPiece piece) (hword : ∀ c ∈ word, isWordChar c)

include hpieces hword

/-- A statement consists of its word and its operands. -/
lemma splitWord_statement {text : List Char} (htrim : Text.trim text = statementChars word pieces) :
    splitWord text = (word, joined pieces) := by
  have hblank : ∀ c ∈ word, isBlank c = false := fun c hc => isBlank_of_isWordChar (hword c hc)
  cases pieces with
  | nil => exact splitWord_word htrim hblank
  | cons piece pieces =>
    exact splitWord_append htrim hblank (Text.isTrimmed_of_forall (isBare_joined hpieces).2)

/-- A statement is bare. -/
lemma isBare_statementChars : IsBare (statementChars word pieces) := by
  have hbare : IsBare word := isBare_of_isPieceChar fun c hc => by simp [isPieceChar, hword c hc]
  cases pieces with
  | nil => exact hbare
  | cons piece pieces =>
    have hblank : IsBare [' '] := by simp [IsBare]
    exact hbare.append (hblank.append (isBare_joined hpieces).1)

/-- A statement is on one line. -/
lemma isOneLine_statementChars : Text.IsOneLine (statementChars word pieces) := by
  refine Text.isOneLine_of_isBlank fun c hc => ?_
  have hblank : ∀ c ∈ word, isBlank c = false := fun c hc => isBlank_of_isWordChar (hword c hc)
  cases pieces with
  | nil => exact .inl (hblank c hc)
  | cons piece pieces =>
    rcases List.mem_append.1 hc with hmem | hmem
    · exact .inl (hblank c hmem)
    · rcases List.mem_cons.1 hmem with rfl | hmem
      · exact .inr rfl
      · exact .inl ((isBare_joined hpieces).2 c hmem)

/-- A statement has no blanks at its ends. -/
lemma isTrimmed_statementChars (hne : word ≠ []) : IsTrimmed (statementChars word pieces) := by
  have hblank : IsTrimmed word :=
    Text.isTrimmed_of_forall fun c hc => isBlank_of_isWordChar (hword c hc)
  cases pieces with
  | nil => exact hblank
  | cons piece pieces =>
    have hjoined := Text.isTrimmed_of_forall (isBare_joined hpieces).2
    have key := hblank.append hjoined hne (joined_ne_nil hpieces) [' ']
    rwa [List.append_assoc] at key

/-- **The statement of a text that starts with no directive is an instruction.** -/
theorem ofText_instruction (hne : word ≠ [])
    (hsegment : Segment.ofDirective? (String.ofList (word.map Char.toLower)) = none)
    (hdirective : Statement.Directive.ofWord? (String.ofList (word.map Char.toLower)) = none) :
    Statement.ofText (String.ofList (statementChars word pieces)) =
      .ok (.instruction (String.ofList word) (pieces.map String.ofList)) := by
  have hsplit := splitWord_statement hpieces hword
    (Text.trim_eq_self (isTrimmed_statementChars hpieces hword hne))
  have hsome : (pieces.any List.isEmpty) = false := by
    rw [List.any_eq_false]
    intro piece hmem
    simp [(hpieces piece hmem).ne_nil]
  simp only [Statement.ofText, String.toList_ofList, hsplit, hsegment, hdirective,
    splitOperandChars_joined hpieces, hsome]
  simp [hne]

/-- **The statement of a text that starts with a directive is that directive.** -/
theorem ofText_directive {directive : Statement.Directive} (hne : word ≠ [])
    (hsegment : Segment.ofDirective? (String.ofList (word.map Char.toLower)) = none)
    (hdirective : Statement.Directive.ofWord? (String.ofList (word.map Char.toLower)) =
      some directive) :
    Statement.ofText (String.ofList (statementChars word pieces)) =
      Statement.ofDirective directive (String.ofList (word.map Char.toLower)) (joined pieces) := by
  have hsplit := splitWord_statement hpieces hword
    (Text.trim_eq_self (isTrimmed_statementChars hpieces hword hne))
  simp only [Statement.ofText, String.toList_ofList, hsplit, hsegment, hdirective]
  simp [hne]

end Statement

/-! ### Lines -/

/-- The name that a line defines, and its statement. -/
def ReadsAs (text : String) (definition : Option Definition) (statement : Statement) : Prop :=
  ∃ line, Line.ofText text = .ok line ∧ line.definition = definition ∧
    Statement.ofText line.statement = .ok statement

/-- A line without quotes is taken apart as it is in front of its comment. -/
lemma ofText_of_isBare {text : String} {body : List Char} (hbare : IsBare body)
    (htext : text.toList = body ∨ ∃ comment, text.toList = body ++ ';' :: comment) :
    Line.ofText text = Line.ofPrepared body := by
  have hstrip : stripComment text.toList = body := by
    rcases htext with htext | ⟨comment, htext⟩
    · rw [htext, stripComment_eq_self fun hmem => (hbare _ hmem).2.2.1 rfl]
    · rw [htext, stripComment_append hbare]
  have hreplace : replaceCharLiterals body = body :=
    replaceFrom_eq_self (fun hmem => (hbare _ hmem).2.1 rfl) _
  rw [Line.ofText, hstrip, hreplace]

/-- A line without a colon defines at most a constant. -/
lemma ofPrepared_of_isBare {body : List Char} (hbare : IsBare body) :
    Line.ofPrepared body = .ok (Line.ofUnlabelled body) := by
  have key : splitAtUnquoted? ':' body = none :=
    splitAtMark?_eq_none (by
      rw [marked, map_fst_markedFrom]
      exact fun hmem => (hbare _ hmem).2.2.2 rfl)
  rw [Line.ofPrepared, key]

section Line

variable {word : List Char} {pieces : List (List Char)}

/-- The operands of a statement define no constant. -/
lemma isEqu_joined (hpieces : ∀ piece ∈ pieces, IsPiece piece) : isEqu (joined pieces) = false := by
  match pieces with
  | [] => rfl
  | [piece] =>
    rw [joined_singleton]
    exact (hpieces piece List.mem_cons_self).not_isEqu
  | piece :: next :: pieces =>
    have hcomma : ',' ∈ (joined (piece :: next :: pieces)).map Char.toLower :=
      List.mem_map.2 ⟨',', by simp [joined_cons_cons], by decide⟩
    rw [isEqu, decide_eq_false_iff_not]
    intro heq
    rw [heq] at hcomma
    exact absurd hcomma (by decide)

/-- **A line with a statement defines no name.** -/
theorem ofText_statement {text : String} {body : List Char} (hbare : IsBare body)
    (htext : text.toList = body ∨ ∃ comment, text.toList = body ++ ';' :: comment)
    (hbody : Text.trim body = statementChars word pieces)
    (hpieces : ∀ piece ∈ pieces, IsPiece piece) (hword : ∀ c ∈ word, isWordChar c) :
    Line.ofText text = .ok ⟨none, String.ofList (statementChars word pieces)⟩ := by
  have hsplit : splitWord body = (word, joined pieces) := splitWord_statement hpieces hword hbody
  have hjoined : splitWord (joined pieces) = (joined pieces, []) := by
    have hblank := (isBare_joined hpieces).2
    exact splitWord_word (Text.trim_eq_self (Text.isTrimmed_of_forall hblank)) hblank
  rw [ofText_of_isBare hbare htext, ofPrepared_of_isBare hbare]
  simp only [Line.ofUnlabelled, hsplit, hjoined, isEqu_joined hpieces, hbody, Bool.false_and,
    Bool.false_eq_true, if_false]

/-- **A name, `equ` and an operand define a constant.** -/
theorem readsAs_constant {text : String} {piece : List Char}
    (htext : text.toList = word ++ ' ' :: 'e' :: 'q' :: 'u' :: ' ' :: piece)
    (hpiece : IsPiece piece) (hword : ∀ c ∈ word, isWordChar c) (hne : word ≠ []) :
    ReadsAs text (some (.constant (String.ofList word) (String.ofList piece))) .empty := by
  have hequ : statementChars ['e', 'q', 'u'] [piece] = 'e' :: 'q' :: 'u' :: ' ' :: piece := by
    simp [statementChars, joined_singleton]
  have hpieces : ∀ p ∈ [piece], IsPiece p := by simpa using hpiece
  have hequWord : ∀ c ∈ ['e', 'q', 'u'], isWordChar c := List.all_eq_true.1 (by decide)
  have htrimmed : IsTrimmed ('e' :: 'q' :: 'u' :: ' ' :: piece) :=
    hequ ▸ isTrimmed_statementChars hpieces hequWord (by simp)
  have hblank : ∀ c ∈ word, isBlank c = false := fun c hc => isBlank_of_isWordChar (hword c hc)
  have hbare : IsBare text.toList := by
    have hfirst : IsBare word := isBare_of_isPieceChar fun c hc => by simp [isPieceChar, hword c hc]
    have hmiddle : IsBare [' '] := by simp [IsBare]
    rw [htext, ← hequ]
    exact hfirst.append (hmiddle.append (isBare_statementChars hpieces hequWord))
  have hwhole : Text.trim text.toList = word ++ ' ' :: 'e' :: 'q' :: 'u' :: ' ' :: piece := by
    have key := (Text.isTrimmed_of_forall hblank).append htrimmed hne (by simp) [' ']
    rw [List.append_assoc] at key
    rw [htext]
    exact Text.trim_eq_self key
  have hfirst := splitWord_append hwhole hblank htrimmed
  have hsecond : splitWord ('e' :: 'q' :: 'u' :: ' ' :: piece) = (['e', 'q', 'u'], piece) := by
    have key := splitWord_statement hpieces hequWord
      ((Text.trim_eq_self htrimmed).trans hequ.symm)
    rwa [joined_singleton] at key
  have hisEqu : isEqu ['e', 'q', 'u'] = true := by decide
  have hnonempty : word.isEmpty = false := by simpa using hne
  refine ⟨⟨some (.constant (String.ofList word) (String.ofList piece)), ""⟩, ?_, rfl, rfl⟩
  rw [ofText_of_isBare hbare (.inl rfl), ofPrepared_of_isBare hbare]
  simp only [Line.ofUnlabelled, hfirst, hsecond, hisEqu, hnonempty, Bool.not_false, Bool.and_self,
    if_true]

/-- **A name in front of a colon is a label.** -/
theorem readsAs_label {text : String} (htext : text.toList = word ++ [':'])
    (hword : ∀ c ∈ word, isWordChar c) (hne : word ≠ []) :
    ReadsAs text (some (.label (String.ofList word))) .empty := by
  have hblank : ∀ c ∈ word, isBlank c = false := fun c hc => isBlank_of_isWordChar (hword c hc)
  have hbare : IsBare word := isBare_of_isPieceChar fun c hc => by simp [isPieceChar, hword c hc]
  have hcomment : ';' ∉ text.toList := by
    rw [htext, List.mem_append, not_or]
    exact ⟨fun hmem => (hbare _ hmem).2.2.1 rfl, by decide⟩
  have hquote : '\x27' ∉ text.toList := by
    rw [htext, List.mem_append, not_or]
    exact ⟨fun hmem => (hbare _ hmem).2.1 rfl, by decide⟩
  have hcolon : ':' ∉ word := fun hmem => (hbare _ hmem).2.2.2 rfl
  have hsplit : splitAtUnquoted? ':' text.toList = some (word, []) := by
    rw [htext]
    exact splitAtMark?_append rfl hbare hcolon (by decide)
  have hname : labelName word = .ok word := by
    have htrim := Text.trim_eq_self (Text.isTrimmed_of_forall hblank)
    have hnone : word.any isBlank = false := by
      rw [List.any_eq_false]
      intro c hc
      simp [hblank c hc]
    simp only [labelName, htrim, hnone]
    simp [hne]
  refine ⟨⟨some (.label (String.ofList word)), ""⟩, ?_, rfl, rfl⟩
  have hreplace : replaceCharLiterals text.toList = text.toList := replaceFrom_eq_self hquote _
  rw [Line.ofText, stripComment_eq_self hcomment, hreplace, Line.ofPrepared, hsplit]
  simp only [hname]
  rfl

/-- A line without anything defines no name and has no statement. -/
lemma readsAs_blank : ReadsAs "" none .empty :=
  ⟨⟨none, ""⟩, by decide +kernel, rfl, rfl⟩

end Line

end Z80.Source
