import Mathlib.Data.List.Infix
import Z80.Proofs.Source.Reading
import Z80.Source.Statement

/-!
# Operands put together and split again

A text is split at its commas, but for those in literals and between parentheses.  If operands are
put together by commas, it is split at these commas and at no others, whatever blanks stand around
them: an operand with all its literals and parentheses closed is read as if it stood alone.  In turn
every text consists of the operands that it is split into, with commas and blanks between them.

## Main definitions

* `Z80.Source.depthBehind` — how many parentheses are open behind marked characters.
* `Z80.Source.IsOperand` — whether a text is one operand.
* `Z80.Source.IsJoined` — whether a text consists of operands with commas between them.

## Main results

* `Z80.Source.partsFrom_append` — characters among which no part ends.
* `Z80.Source.splitOperandChars_of_isJoined`, `Z80.Source.splitOperands_of_isJoined` — operands that
  are put together are split again.
* `Z80.Source.isJoined_splitOperandChars` — the operands of a text, put together, are that text.

## Design

A comma may stand anywhere at a depth other than 0, so `IsOperand` does not ask that parentheses are
nested, only that as many of them close as open.
-/

namespace Z80.Source

open Text (isBlank IsTrimmed)

variable {marks : List (Char × Bool)} {r : Reading} {cs text operand : List Char}
  {operands : List (List Char)}

/-! ### Parentheses -/

/-- How many parentheses are open behind marked characters, those in literals apart. -/
def depthBehind (marks : List (Char × Bool)) : Int :=
  marks.count ('(', true) - marks.count (')', true)

/-- Parentheses are counted one after the other. -/
lemma depthBehind_append (marks more : List (Char × Bool)) :
    depthBehind (marks ++ more) = depthBehind marks + depthBehind more := by
  simp only [depthBehind, List.count_append]
  omega

lemma depthBehind_cons (mark : Char × Bool) (marks : List (Char × Bool)) :
    depthBehind (mark :: marks) = depthBehind [mark] + depthBehind marks :=
  depthBehind_append [mark] marks

/-- Behind characters none of which is a parenthesis no parenthesis is open. -/
lemma depthBehind_markedFrom (hopening : '(' ∉ cs) (hclosing : ')' ∉ cs) :
    depthBehind (markedFrom r cs) = 0 := by
  have hnone {c : Char} (hc : c ∉ cs) : (markedFrom r cs).count (c, true) = 0 :=
    List.count_eq_zero.2 fun hmem => hc (mem_of_mem_markedFrom hmem)
  rw [depthBehind, hnone hopening, hnone hclosing]
  rfl

/-! ### Parts -/

/-- A character belongs to the part that is being read, unless it is a comma that ends it. -/
lemma partsFrom_cons {mark : Char × Bool} {depth : Int} (h : mark = (',', true) → depth ≠ 0)
    (part : List Char) (rest : List (Char × Bool)) :
    partsFrom depth part (mark :: rest) =
      partsFrom (depth + depthBehind [mark]) (mark.1 :: part) rest := by
  obtain ⟨c, isPlain⟩ := mark
  have hcut : ¬(isPlain && c = ',' && depth = 0) = true := by
    simp only [Bool.and_eq_true, decide_eq_true_eq]
    rintro ⟨⟨rfl, rfl⟩, hdepth⟩
    exact h rfl hdepth
  have hdepth : (if isPlain && c = '(' then depth + 1 else if isPlain && c = ')' then depth - 1
      else depth) = depth + depthBehind [(c, isPlain)] := by
    cases isPlain with
    | false => simp [depthBehind]
    | true =>
      by_cases hopening : c = '('
      · subst hopening
        simp [depthBehind]
      · by_cases hclosing : c = ')'
        · subst hclosing
          simp [depthBehind, Int.sub_eq_add_neg]
        · simp [depthBehind, hopening, hclosing]
  rw [partsFrom, if_neg hcut, ← hdepth]

/-- **Characters among which no part ends belong to the part that is being read.**  A part ends at a
comma outside literals at depth 0. -/
theorem partsFrom_append {depth : Int}
    (h : ∀ front, front ++ [(',', true)] <+: marks → depth + depthBehind front ≠ 0)
    (part : List Char) (rest : List (Char × Bool)) :
    partsFrom depth part (marks ++ rest) =
      partsFrom (depth + depthBehind marks) ((marks.map Prod.fst).reverse ++ part) rest := by
  induction marks generalizing depth part with
  | nil => simp [depthBehind]
  | cons mark marks ih =>
    have hmark : mark = (',', true) → depth ≠ 0 := by
      rintro rfl
      have hfirst := h [] (List.cons_prefix_cons.2 ⟨rfl, List.nil_prefix⟩)
      simpa [depthBehind] using hfirst
    have hmarks : ∀ front, front ++ [(',', true)] <+: marks →
        depth + depthBehind [mark] + depthBehind front ≠ 0 := by
      intro front hfront
      have hnext := h (mark :: front) (List.cons_prefix_cons.2 ⟨rfl, hfront⟩)
      rwa [depthBehind_cons, ← Int.add_assoc] at hnext
    rw [List.cons_append, partsFrom_cons hmark, ih hmarks, depthBehind_cons mark marks,
      Int.add_assoc, List.map_cons, List.reverse_cons, List.append_assoc]
    rfl

/-- Where there is no comma no part ends. -/
lemma not_prefix_of_comma_notMem (h : ',' ∉ cs) (front : List (Char × Bool)) :
    ¬front ++ [(',', true)] <+: markedFrom r cs := by
  intro hfront
  have hmem : (',', true) ∈ markedFrom r cs := hfront.subset (by simp)
  exact h (mem_of_mem_markedFrom hmem)

/-- Blanks belong to the part that is being read. -/
lemma partsFrom_blanks (hcs : ∀ c ∈ cs, isBlank c) (depth : Int) (part : List Char)
    (rest : List (Char × Bool)) :
    partsFrom depth part (markedFrom r cs ++ rest) =
      partsFrom depth (cs.reverse ++ part) rest := by
  have hnone {c : Char} (hc : isBlank c = false) : c ∉ cs := by
    intro hmem
    simp [hcs c hmem] at hc
  have hcomma : ∀ front, front ++ [(',', true)] <+: markedFrom r cs →
      depth + depthBehind front ≠ 0 := by
    intro front hfront
    exact absurd hfront (not_prefix_of_comma_notMem (hnone (by decide)) front)
  rw [partsFrom_append hcomma, depthBehind_markedFrom (hnone (by decide)) (hnone (by decide)),
    Int.add_zero, map_fst_markedFrom]

section Separator

variable {before after : List Char} (hr : r.quote = none) (hbefore : ∀ c ∈ before, isBlank c)
  (hafter : ∀ c ∈ after, isBlank c)

include hr hbefore

/-- Outside literals, no literal is open between blanks and a comma. -/
lemma quote_behind_blanks : (r.behind before).quote = none :=
  quote_behind hr fun c hc => ne_quote_of_isBlank (hbefore c hc)

include hafter

/-- Outside literals, behind a comma with blanks around it everything is as at the start. -/
lemma alike_behind_separator : (r.behind (before ++ ',' :: after)).Alike .start := by
  have hcomma : ((r.behind before).next ',').Alike .start :=
    Reading.next_alike_start (quote_behind_blanks hr hbefore) (by decide) (by decide) (by decide)
  rw [Reading.behind_append]
  change (((r.behind before).next ',').behind after).Alike .start
  exact alike_behind_blanks hcomma hafter

/-- **A comma with blanks around it ends a part**, outside literals at depth 0.  The blanks behind
it belong to the next part. -/
theorem partsFrom_separator (part : List Char) (rest : List (Char × Bool)) :
    partsFrom 0 part (markedFrom r (before ++ ',' :: after) ++ rest) =
      (part.reverse ++ before) :: partsFrom 0 after.reverse rest := by
  have hquote := quote_behind_blanks hr hbefore
  have hplain : (r.behind before).isPlain ',' = true := by
    simp [Reading.isPlain, hquote, opens_eq_false]
  rw [markedFrom_append, markedFrom, hplain, List.append_assoc, partsFrom_blanks hbefore,
    List.cons_append, partsFrom, if_pos (by decide), partsFrom_blanks hafter,
    List.append_nil, List.reverse_append, List.reverse_reverse]

end Separator

/-! ### Operands -/

/-- The characters of one operand: it has no blanks at its ends, its literals are closed, as many
parentheses close as open, and each comma stands in a literal or between parentheses. -/
structure IsOperand (text : List Char) : Prop where
  ne_nil : text ≠ []
  isTrimmed : IsTrimmed text
  isClosed : IsClosed text
  depth_eq : depthBehind (marked text) = 0
  comma_inside : ∀ front, front ++ [(',', true)] <+: marked text → depthBehind front ≠ 0

/-- It is enough to look for commas behind the finitely many prefixes of a text. -/
instance : DecidablePred IsOperand := fun text =>
  decidable_of_iff
    (text ≠ [] ∧ IsTrimmed text ∧ IsClosed text ∧ depthBehind (marked text) = 0 ∧
      ∀ front ∈ (marked text).inits,
        front ++ [(',', true)] <+: marked text → depthBehind front ≠ 0)
    (by
      constructor
      · rintro ⟨hne, htrimmed, hclosed, hdepth, hcomma⟩
        refine ⟨hne, htrimmed, hclosed, hdepth, fun front hfront => ?_⟩
        exact hcomma front ((List.mem_inits _ _).2 ((List.prefix_append _ _).trans hfront)) hfront
      · rintro ⟨hne, htrimmed, hclosed, hdepth, hcomma⟩
        exact ⟨hne, htrimmed, hclosed, hdepth, fun front _ => hcomma front⟩)

/-- An apostrophe behind `af` opens no literal.  A comma may stand in parentheses or in a literal,
and parentheses in a literal do not count. -/
example : IsOperand "af'".toList ∧ IsOperand "(ix+(1,2))".toList ∧ IsOperand "'),('".toList ∧
    ¬IsOperand "1,2".toList ∧ ¬IsOperand "'1".toList ∧ ¬IsOperand "(1".toList := by
  decide +kernel

/-- An operand belongs to the part that is being read, as no part ends in it. -/
lemma IsOperand.partsFrom_append (h : IsOperand operand) (hr : r.Alike .start) (part : List Char)
    (rest : List (Char × Bool)) :
    partsFrom 0 part (markedFrom r operand ++ rest) =
      partsFrom 0 (operand.reverse ++ part) rest := by
  have hcomma : ∀ front, front ++ [(',', true)] <+: marked operand →
      0 + depthBehind front ≠ 0 := by
    intro front hfront
    rw [Int.zero_add]
    exact h.comma_inside front hfront
  rw [markedFrom_congr hr, ← marked, Source.partsFrom_append hcomma, h.depth_eq, Int.add_zero,
    marked, map_fst_markedFrom]

/-! ### Operands put together -/

/-- A text that consists of operands, with a comma between any two of them and blanks around the
commas. -/
inductive IsJoined : List (List Char) → List Char → Prop
  | single (operand : List Char) : IsJoined [operand] operand
  | cons (operand : List Char) {before after text : List Char} {operands : List (List Char)}
      (hbefore : ∀ c ∈ before, isBlank c) (hafter : ∀ c ∈ after, isBlank c)
      (hrest : IsJoined operands text) :
      IsJoined (operand :: operands) (operand ++ (before ++ ',' :: after) ++ text)

namespace IsJoined

/-- What is put together from operands is not nothing, and has no blanks at its ends. -/
lemma isTrimmed (h : IsJoined operands text) (hoperands : ∀ operand ∈ operands, IsOperand operand) :
    text ≠ [] ∧ IsTrimmed text := by
  induction h with
  | single operand =>
    have hoperand := hoperands operand List.mem_cons_self
    exact ⟨hoperand.ne_nil, hoperand.isTrimmed⟩
  | cons operand hbefore hafter hrest ih =>
    obtain ⟨hoperand, hoperands⟩ := List.forall_mem_cons.1 hoperands
    obtain ⟨hne, htext⟩ := ih hoperands
    exact ⟨by simp, hoperand.isTrimmed.append htext hoperand.ne_nil hne _⟩

/-- **The parts of what is put together from operands** are these operands, up to blanks.

**Proof sketch.** Behind an operand no literal and no parenthesis is open, so neither the blanks
there nor the comma stand in one.  Behind the comma everything is as at the start, and the blanks
there belong to the next part. -/
theorem map_trim_partsFrom (h : IsJoined operands text)
    (hoperands : ∀ operand ∈ operands, IsOperand operand) (hr : r.Alike .start) {part : List Char}
    (hpart : ∀ c ∈ part, isBlank c) :
    (partsFrom 0 part (markedFrom r text)).map Text.trim = operands := by
  have hreverse {cs : List Char} (hcs : ∀ c ∈ cs, isBlank c) : ∀ c ∈ cs.reverse, isBlank c :=
    fun c hc => hcs c (List.mem_reverse.1 hc)
  induction h generalizing r part with
  | single operand =>
    have hoperand := hoperands operand List.mem_cons_self
    have hparts := hoperand.partsFrom_append hr part []
    rw [List.append_nil, partsFrom, List.reverse_append, List.reverse_reverse] at hparts
    have hnone : ∀ c ∈ ([] : List Char), isBlank c := by simp
    have htrim := Text.trim_append hoperand.isTrimmed (hreverse hpart) hnone
    rw [List.append_nil] at htrim
    rw [hparts, List.map_singleton, htrim]
  | @cons operand before after text operands hbefore hafter hrest ih =>
    obtain ⟨hoperand, hoperands⟩ := List.forall_mem_cons.1 hoperands
    have hclosed : (r.behind operand).quote = none :=
      (hr.behind operand).quote.trans hoperand.isClosed
    have hnext := alike_behind_separator hclosed hbefore hafter
    have htrim := Text.trim_append hoperand.isTrimmed (hreverse hpart) hbefore
    rw [markedFrom_append, markedFrom_append, List.append_assoc, hoperand.partsFrom_append hr,
      partsFrom_separator hclosed hbefore hafter, Reading.behind_append, List.map_cons,
      ih hoperands hnext (hreverse hafter), List.reverse_append, List.reverse_reverse, htrim]

end IsJoined

/-- **Operands that are put together are split again.** -/
theorem splitOperandChars_of_isJoined (h : IsJoined operands text)
    (hoperands : ∀ operand ∈ operands, IsOperand operand) : splitOperandChars text = operands := by
  obtain ⟨hne, htrimmed⟩ := h.isTrimmed hoperands
  have hempty : text.isEmpty = false := by simpa using hne
  have hnone : ∀ c ∈ ([] : List Char), isBlank c := by simp
  simp only [splitOperandChars, Text.trim_eq_self htrimmed, hempty, Bool.false_eq_true, if_false]
  exact h.map_trim_partsFrom hoperands (.refl .start) hnone

/-- **Operands that are put together, with a comma between any two of them and blanks around the
commas, are split again.** -/
theorem splitOperands_of_isJoined {operands : List String} {text : String}
    (hjoined : IsJoined (operands.map String.toList) text.toList)
    (hoperands : ∀ operand ∈ operands, IsOperand operand.toList) :
    splitOperands text = operands := by
  have hchars : ∀ operand ∈ operands.map String.toList, IsOperand operand := by
    intro operand hmem
    obtain ⟨s, hs, rfl⟩ := List.mem_map.1 hmem
    exact hoperands s hs
  have hback : operands.map (String.ofList ∘ String.toList) = operands :=
    List.map_id'' (fun _ => String.ofList_toList) operands
  rw [splitOperands, splitOperandChars_of_isJoined hjoined hchars, List.map_map, hback]

/-- An operand that ends with `af` stands in front of a literal with a parenthesis and a comma in
it. -/
theorem splitOperands_of_isJoined_shadow :
    let operands := ["af", "'),'", "(ix+(1,2))", "af'"]
    let text := "af,'),' \t, (ix+(1,2)),af'"
    IsJoined (operands.map String.toList) text.toList ∧
      (∀ operand ∈ operands, IsOperand operand.toList) ∧ splitOperands text = operands := by
  intro operands text
  have hnone : ∀ c ∈ ([] : List Char), isBlank c := by simp
  have htab : ∀ c ∈ [' ', '\t'], isBlank c := List.all_eq_true.1 (by decide)
  have hblank : ∀ c ∈ [' '], isBlank c := List.all_eq_true.1 (by decide)
  have htext : text.toList = "af".toList ++ ([] ++ ',' :: []) ++
      ("'),'".toList ++ ([' ', '\t'] ++ ',' :: [' ']) ++
        ("(ix+(1,2))".toList ++ ([] ++ ',' :: []) ++ "af'".toList)) := by
    decide +kernel
  have hjoined : IsJoined (operands.map String.toList) text.toList := by
    rw [htext]
    exact .cons _ hnone hnone (.cons _ htab hblank (.cons _ hnone hnone (.single _)))
  have hoperands : ∀ operand ∈ operands, IsOperand operand.toList := by decide +kernel
  exact ⟨hjoined, hoperands, splitOperands_of_isJoined hjoined hoperands⟩

/-! ### Operands of any text -/

/-- Parts that are trimmed make up the text that they are parts of, with blanks around it. -/
lemma exists_isJoined_partsFrom (depth : Int) (part : List Char) (marks : List (Char × Bool)) :
    ∃ before text after, part.reverse ++ marks.map Prod.fst = before ++ (text ++ after) ∧
      (∀ c ∈ before, isBlank c) ∧ (∀ c ∈ after, isBlank c) ∧
        IsJoined ((partsFrom depth part marks).map Text.trim) text := by
  induction marks generalizing depth part with
  | nil =>
    obtain ⟨before, after, hpart, hbefore, hafter⟩ := Text.exists_eq_append_trim part.reverse
    refine ⟨before, Text.trim part.reverse, after, ?_, hbefore, hafter, .single _⟩
    rw [List.map_nil, List.append_nil, ← hpart]
  | cons mark marks ih =>
    obtain ⟨c, isPlain⟩ := mark
    rw [partsFrom]
    split
    · next hcut =>
      simp only [Bool.and_eq_true, decide_eq_true_eq] at hcut
      obtain ⟨⟨-, rfl⟩, -⟩ := hcut
      obtain ⟨before, after, hpart, hbefore, hafter⟩ := Text.exists_eq_append_trim part.reverse
      obtain ⟨before', text, after', hrest, hbefore', hafter', hjoined⟩ := ih depth []
      refine ⟨before, _, after', ?_, hbefore, hafter', .cons _ hafter hbefore' hjoined⟩
      have hrest' : marks.map Prod.fst = before' ++ (text ++ after') := by simpa using hrest
      rw [List.map_cons, hrest']
      conv_lhs => rw [hpart]
      simp
    · obtain ⟨before, text, after, hrest, hbefore, hafter, hjoined⟩ := ih _ (c :: part)
      refine ⟨before, text, after, ?_, hbefore, hafter, hjoined⟩
      rw [← hrest, List.map_cons, List.reverse_cons, List.append_assoc]
      rfl

/-- **The operands of a text, put together, are that text**, but for blanks around it. -/
theorem isJoined_splitOperandChars (hne : Text.trim text ≠ []) :
    ∃ before joined after, text = before ++ (joined ++ after) ∧ (∀ c ∈ before, isBlank c) ∧
      (∀ c ∈ after, isBlank c) ∧ IsJoined (splitOperandChars text) joined := by
  obtain ⟨before, after, htext, hbefore, hafter⟩ := Text.exists_eq_append_trim text
  obtain ⟨before', joined, after', hmarks, hbefore', hafter', hjoined⟩ :=
    exists_isJoined_partsFrom 0 [] (marked (Text.trim text))
  have htrim : Text.trim text = before' ++ (joined ++ after') := by
    rwa [List.reverse_nil, List.nil_append, marked, map_fst_markedFrom] at hmarks
  have hempty : (Text.trim text).isEmpty = false := by simpa using hne
  refine ⟨before ++ before', joined, after' ++ after, ?_, ?_, ?_, ?_⟩
  · rw [htrim] at htext
    simpa using htext
  · exact fun c hc => (List.mem_append.1 hc).elim (hbefore c) (hbefore' c)
  · exact fun c hc => (List.mem_append.1 hc).elim (hafter' c) (hafter c)
  · simp only [splitOperandChars, hempty, Bool.false_eq_true, if_false]
    exact hjoined

end Z80.Source
