import Mathlib.Data.List.Nodup
import Mathlib.Data.List.Pairwise
import Z80.Proofs.Catalog.Roles
import Z80.Proofs.Expr.Extension

/-!
# No instruction has two meanings

Two templates of the catalog, be they templates proper or alternate ones, never accept the same
operands.  Whatever names are known, a source instruction has at most one candidate, and an
alternate template is never in the way of another template.

## Main definitions

* `Z80.Pattern` — what tells apart the operands that slots accept.
* `Z80.Template.patterns`, `Z80.Operand.patternsFrom` — the patterns of slots and of operands.

## Main results

* `Z80.Template.patterns_eq_of_accepts` — operands have the patterns of any template that accepts
  them.
* `Z80.Descriptor.pairwise_all` — templates of different descriptors have different patterns.
* `Z80.Descriptor.filter_isCandidate` — a candidate is the only one, by whichever template.
* `Z80.resolve_eq_ok_iff` — resolving finds the one descriptor that an instruction denotes.
* `Z80.candidates_unambiguous` — there are never two candidates, by whichever templates.
* `Z80.resolve_extends` — an instruction keeps its meaning when further names are known.

## Design

What an operand can stand for depends on its role: the text `c` is a condition or a register, and
`7` is the number of a bit or an expression.  Given the role the pattern of an operand is a
function of the operand, and that of a slot is one of the slot.  So it is enough to compare the
patterns of templates, which needs no operands.
-/

namespace Z80

open Operand (Shape)

/-! ### Patterns -/

/-- What a slot asks of an operand. -/
inductive Pattern where
  /-- To be a text, or the number that a text spells. -/
  | spelled (text : String)
  /-- To be an expression without parentheses. -/
  | expression
  /-- To be an expression in parentheses. -/
  | memory
  | indexed (index : Index)
  deriving DecidableEq, Repr

/-- The pattern of a slot. -/
def Slot.pattern : Slot → Pattern
  | named s | literal s => .spelled s
  | byte | word | relative => .expression
  | port | address => .memory
  | indexed i => .indexed i

/-- The patterns of the slots of a template. -/
def Template.patterns (template : Template) : List Pattern :=
  template.slots.map Slot.pattern

namespace Operand

/-- Whether the shape of an operand is that of its compact text. -/
def IsShaped (operand : Operand) : Prop :=
  operand.shape = .ofCompact operand.compact.toList

lemma isShaped_ofText (text : String) : (ofText text).IsShaped := by
  simp [IsShaped, ofText]

lemma isShaped_of_mem_map (texts : List String) :
    ∀ operand ∈ texts.map ofText, operand.IsShaped := by
  intro operand hmem
  obtain ⟨text, -, rfl⟩ := List.mem_map.1 hmem
  exact isShaped_ofText text

/-- The pattern of a number among some spellings. -/
def numberPattern (scope : Expr.Scope) (names : List String) (operand : Operand) : Pattern :=
  .spelled ((names.find? fun name => literalMatches scope name operand.text).getD "")

/-- The pattern of an operand of an instruction in a role. -/
def pattern (scope : Expr.Scope) (mnemonic : Mnemonic) (operand : Operand) : Role → Pattern
  | .condition => .spelled operand.compact
  | .digit =>
    if operand.shape.isRegisterForm then .spelled operand.compact
    else operand.numberPattern scope digitNames
  | .restart => operand.numberPattern scope restartNames
  | .target =>
    match operand.shape with
    | .register | .indexed _ _ => .spelled operand.compact
    | .plain | .enclosed => .expression
  | .general =>
    match operand.shape with
    | .register => .spelled operand.compact
    | .indexed i _ => .indexed i
    | .plain => .expression
    | .enclosed => if mnemonic = .cp then .expression else .memory

/-- The patterns of the operands from a place on, among so many operands of a mnemonic. -/
def patternsFrom (scope : Expr.Scope) (mnemonic : Mnemonic) (count : Nat) :
    (place : Nat) → List Operand → List Pattern
  | _, [] => []
  | place, operand :: operands =>
    operand.pattern scope mnemonic (.at mnemonic count place)
      :: patternsFrom scope mnemonic count (place + 1) operands

end Operand

/-! ### The spellings of registers and numbers -/

/-- A register that is spelled out is one in shape. -/
lemma ofCompact_registerForms :
    ∀ s ∈ registerForms, Shape.ofCompact s.toList = .register := by
  decide +kernel

/-- A register as the target of a jump is a register or indexed. -/
lemma isRegisterForm_targetForms :
    ∀ s ∈ targetForms, (Shape.ofCompact s.toList).isRegisterForm := by
  decide +kernel

/-- The spellings of bit numbers have different values. -/
lemma digitNames_inj : ∀ s ∈ digitNames, ∀ t ∈ digitNames,
    Expr.evaluate (.bare 0) s = Expr.evaluate (.bare 0) t → s = t := by
  decide +kernel

/-- The spellings of restart addresses have different values. -/
lemma restartNames_inj : ∀ s ∈ restartNames, ∀ t ∈ restartNames,
    Expr.evaluate (.bare 0) s = Expr.evaluate (.bare 0) t → s = t := by
  decide +kernel

/-- A text cannot be the number that two literals spell if these have different values. -/
lemma eq_of_literalMatches {scope : Expr.Scope} {s t text : String}
    (hs : literalMatches scope s text) (ht : literalMatches scope t text) :
    Expr.evaluate (.bare 0) s = Expr.evaluate (.bare 0) t := by
  unfold literalMatches at hs ht
  cases hactual : Expr.evaluate scope text with
  | error fault => cases h : Expr.evaluate (.bare 0) s <;> simp [h, hactual] at hs
  | ok actual =>
    cases h : Expr.evaluate (.bare 0) s with
    | error fault => simp [h] at hs
    | ok v =>
      cases h' : Expr.evaluate (.bare 0) t with
      | error fault => simp [h'] at ht
      | ok w => simp_all

/-- The pattern of a number is the literal that matches it. -/
lemma numberPattern_eq {scope : Expr.Scope} {names : List String} {operand : Operand} {s : String}
    (hinj : ∀ s ∈ names, ∀ t ∈ names,
      Expr.evaluate (.bare 0) s = Expr.evaluate (.bare 0) t → s = t)
    (hmem : s ∈ names) (hs : literalMatches scope s operand.text) :
    operand.numberPattern scope names = .spelled s := by
  obtain ⟨t, ht⟩ := Option.isSome_iff_exists.1
    (List.find?_isSome.2 ⟨s, hmem, hs⟩ :
      (names.find? fun name => literalMatches scope name operand.text).isSome)
  have hmatch : literalMatches scope t operand.text := by simpa using List.find?_some ht
  rw [Operand.numberPattern, ht, Option.getD_some,
    hinj t (List.mem_of_find?_eq_some ht) s hmem (eq_of_literalMatches hmatch hs)]

/-! ### Accepted operands -/

section Accepts

variable {scope : Expr.Scope} {mnemonic : Mnemonic} {operand : Operand}

/-- An operand that a slot accepts has the pattern of the slot, in the role that the slot fits. -/
lemma Slot.pattern_eq_of_accepts {slot : Slot} {role : Role} (hshape : operand.IsShaped)
    (hfits : slot.fits mnemonic role) (haccepts : slot.accepts scope mnemonic operand) :
    slot.pattern = operand.pattern scope mnemonic role := by
  cases slot with
  | named s =>
    have hcompact : operand.compact = s := by simpa [accepts] using haccepts
    rw [Operand.IsShaped, hcompact] at hshape
    cases role with
    | condition => simp [pattern, Operand.pattern, hcompact]
    | restart => simp [fits] at hfits
    | digit =>
      have hmem : s ∈ registerForms := List.mem_append_left _ (mem_of_isAmong hfits)
      rw [ofCompact_registerForms s hmem] at hshape
      simp [pattern, Operand.pattern, hshape, hcompact, Shape.isRegisterForm]
    | target =>
      have hform := isRegisterForm_targetForms s (mem_of_isAmong hfits)
      rw [← hshape] at hform
      clear hshape
      cases hs : operand.shape <;> simp [pattern, Operand.pattern, hs, hcompact]
      all_goals simp [hs, Shape.isRegisterForm] at hform
    | general =>
      rw [ofCompact_registerForms s (mem_of_isAmong hfits)] at hshape
      simp [pattern, Operand.pattern, hshape, hcompact]
  | literal s =>
    obtain ⟨hform, hmatch⟩ : operand.shape.isRegisterForm = false ∧
        literalMatches scope s operand.text := by simpa [accepts] using haccepts
    cases role with
    | digit =>
      rw [Operand.pattern, if_neg (by simp [hform])]
      exact (numberPattern_eq digitNames_inj (mem_of_isAmong hfits) hmatch).symm
    | restart => exact (numberPattern_eq restartNames_inj (mem_of_isAmong hfits) hmatch).symm
    | condition | target | general => simp [fits] at hfits
  | byte | word | relative =>
    cases role with
    | general | target =>
      cases hs : operand.shape <;> simp_all [accepts, fits, pattern, Operand.pattern]
    | condition | digit | restart => simp [fits] at hfits
  | port | address =>
    have hs : operand.shape = .enclosed := by simpa [accepts] using haccepts
    cases role with
    | general =>
      have hcp : mnemonic ≠ .cp := by simpa [fits] using hfits
      simp [pattern, Operand.pattern, hs, hcp]
    | condition | digit | restart | target => simp [fits] at hfits
  | indexed i =>
    cases role with
    | general => cases hs : operand.shape <;> simp_all [accepts, pattern, Operand.pattern]
    | condition | digit | restart | target => simp [fits] at hfits

/-- The operands that slots accept have the patterns of the slots. -/
lemma Slot.patterns_eq_of_accepts {count : Nat} :
    ∀ {slots : List Slot} {operands : List Operand} (place : Nat),
      (∀ operand ∈ operands, operand.IsShaped) → slots.length = operands.length →
      fitFrom mnemonic count place slots →
      ((slots.zip operands).all fun (slot, operand) => slot.accepts scope mnemonic operand) →
      slots.map pattern = Operand.patternsFrom scope mnemonic count place operands
  | [], [], _, _, _, _, _ => rfl
  | slot :: slots, operand :: operands, place, hshaped, hlength, hfits, haccepts => by
    simp only [fitFrom, Bool.and_eq_true] at hfits
    simp only [List.zip_cons_cons, List.all_cons, Bool.and_eq_true] at haccepts
    have hrest := patterns_eq_of_accepts (place + 1)
      (fun operand h => hshaped operand (List.mem_cons_of_mem _ h)) (by simpa using hlength)
      hfits.2 haccepts.2
    rw [List.map_cons, Operand.patternsFrom, hrest,
      pattern_eq_of_accepts (hshaped operand List.mem_cons_self) hfits.1 haccepts.1]

/-- **Operands have the patterns of any regular template that accepts them.** -/
theorem Template.patterns_eq_of_accepts {template : Template} {operands : List Operand}
    (hshaped : ∀ operand ∈ operands, operand.IsShaped) (hregular : template.isRegular)
    (haccepts : template.accepts scope operands) :
    template.patterns =
      Operand.patternsFrom scope template.mnemonic operands.length 0 operands := by
  simp only [accepts, Bool.and_eq_true, beq_iff_eq] at haccepts
  rw [isRegular, haccepts.1] at hregular
  exact Slot.patterns_eq_of_accepts 0 hshaped haccepts.1 hregular haccepts.2

end Accepts

/-! ### The templates of the catalog -/

/-- Whether the numbers of a list are different, found by sorting them around the first one, at
most so many times. -/
def areDistinct : (rounds : Nat) → List Nat → Bool
  | 0, _ => false
  | _, [] => true
  | rounds + 1, n :: ns =>
    ns.all (fun k => !Nat.beq k n) && areDistinct rounds (ns.filter fun k => Nat.ble k n)
      && areDistinct rounds (ns.filter fun k => !Nat.ble k n)

/-- Sorting finds numbers that are equal. -/
lemma nodup_of_areDistinct : ∀ (rounds : Nat) {ns : List Nat}, areDistinct rounds ns → ns.Nodup
  | 0, _, h => by simp [areDistinct] at h
  | _ + 1, [], _ => List.nodup_nil
  | rounds + 1, n :: ns, h => by
    simp only [areDistinct, Bool.and_eq_true, List.all_eq_true, Bool.not_eq_true'] at h
    obtain ⟨⟨hne, hlow⟩, hhigh⟩ := h
    refine List.nodup_cons.2 ⟨fun hmem => by simpa using hne n hmem, ?_⟩
    have hperm : (ns.filter (fun k => Nat.ble k n) ++ ns.filter (fun k => !Nat.ble k n)).Perm ns :=
      List.filter_append_perm _ ns
    refine hperm.nodup_iff.1 (List.Nodup.append (nodup_of_areDistinct rounds hlow)
      (nodup_of_areDistinct rounds hhigh) fun k hk hk' => ?_)
    have h1 := (List.mem_filter.1 hk).2
    have h2 := (List.mem_filter.1 hk').2
    simp [h1] at h2

/-- A pattern as a number. -/
def Pattern.code : Pattern → Nat
  | expression => 0
  | memory => 1
  | indexed .ix => 2
  | indexed .iy => 3
  | spelled s => 4 + textCode s

/-- A template as a number, scattered so that sorting is quick. -/
def Template.code (template : Template) : Nat :=
  (template.patterns.foldl (fun n p => n * 0x100000000000000000000000000000 + p.code)
    template.mnemonic.ctorIdx.succ) * 0x9E3779B97F4A7C15 % 0xFFFFFFFFFFFFFFC5

/-- The templates by which the assembler knows an instruction. -/
def Descriptor.choices (d : Descriptor) : List Template :=
  if d.isDuplicate then [] else d.spellings

namespace Descriptor

/-- The templates of the catalog have different codes. -/
lemma nodup_codes : ((all.flatMap choices).map Template.code).Nodup :=
  nodup_of_areDistinct 32 (by decide +kernel)

/-- No template of one descriptor has the code of a template of a descriptor behind it. -/
lemma pairwise_all :
    all.Pairwise fun d e => ∀ t ∈ d.choices, ∀ u ∈ e.choices, t.code ≠ u.code := by
  have h := nodup_codes
  rw [List.map_flatMap, List.nodup_flatMap] at h
  refine h.2.imp fun hdisjoint t ht u hu heq => ?_
  refine hdisjoint (List.mem_map_of_mem ht) ?_
  rw [heq]
  exact List.mem_map_of_mem hu

/-- The two templates of a descriptor have different codes. -/
lemma code_ne_of_alternate {d : Descriptor} (hd : d ∈ all) (hduplicate : d.isDuplicate = false)
    {t : Template} (ht : d.alternate = some t) : d.template.code ≠ t.code := by
  have h := nodup_codes
  rw [List.map_flatMap, List.nodup_flatMap] at h
  have hnodup := h.1 d hd
  rw [choices, if_neg (by simp [hduplicate]), spellings, ht] at hnodup
  intro heq
  refine (List.nodup_cons.1 hnodup).1 ?_
  rw [heq]
  exact List.mem_cons_self

/-- A candidate has a template with the mnemonic that accepts the operands. -/
lemma isCandidate_iff {scope : Expr.Scope} {mnemonic : Mnemonic} {operands : List Operand}
    {alternate : Bool} {d : Descriptor} :
    d.isCandidate scope mnemonic operands alternate ↔
      d.isDuplicate = false ∧ ∃ t, d.spelling? alternate = some t ∧ t.mnemonic = mnemonic ∧
        t.accepts scope operands := by
  unfold isCandidate
  cases d.spelling? alternate <;> simp

section Candidates

variable {scope : Expr.Scope} {mnemonic : Mnemonic} {operands : List Operand}
  (hshaped : ∀ operand ∈ operands, operand.IsShaped)

include hshaped

/-- Templates of the catalog that accept the same operands have equal codes. -/
lemma code_eq_of_accepts {t u : Template} (ht : t.isRegular) (hu : u.isRegular)
    (hmnemonic : t.mnemonic = u.mnemonic) (haccepts : t.accepts scope operands)
    (haccepts' : u.accepts scope operands) : t.code = u.code := by
  have hpatterns : t.patterns = u.patterns := by
    rw [Template.patterns_eq_of_accepts hshaped ht haccepts,
      Template.patterns_eq_of_accepts hshaped hu haccepts', hmnemonic]
  rw [Template.code, Template.code, hpatterns, hmnemonic]

/-- Two candidates, each by either of its templates, have templates with equal codes. -/
lemma code_eq_of_isCandidate {d e : Descriptor} (hd : d ∈ all) (he : e ∈ all)
    {alternate alternate' : Bool} (hcand : d.isCandidate scope mnemonic operands alternate)
    (hcand' : e.isCandidate scope mnemonic operands alternate') :
    ∃ t u, d.spelling? alternate = some t ∧ e.spelling? alternate' = some u ∧ t ∈ d.choices ∧
      u ∈ e.choices ∧ t.code = u.code := by
  obtain ⟨hdup, t, ht, hmt, hat⟩ := isCandidate_iff.1 hcand
  obtain ⟨hdup', u, hu, hmu, hau⟩ := isCandidate_iff.1 hcand'
  have htmem := mem_spellings_of_spelling? ht
  have humem := mem_spellings_of_spelling? hu
  exact ⟨t, u, ht, hu, by simpa [choices, hdup], by simpa [choices, hdup'],
    code_eq_of_accepts hshaped (isRegular_of_mem_all hd htmem) (isRegular_of_mem_all he humem)
      (hmt.trans hmu.symm) hat hau⟩

/-- **Only one descriptor of the catalog is a candidate**, by whichever of its templates. -/
theorem filter_isCandidate {d : Descriptor} (hd : d ∈ all) {alternate : Bool}
    (hcand : d.isCandidate scope mnemonic operands alternate) :
    all.filter (·.isCandidate scope mnemonic operands alternate) = [d] := by
  have hpairwise := pairwise_all
  obtain ⟨before, after, hall⟩ := List.append_of_mem hd
  rw [hall, List.pairwise_append, List.pairwise_cons] at hpairwise
  obtain ⟨-, ⟨hafter, -⟩, hbefore⟩ := hpairwise
  -- no descriptor on either side of `d` is a candidate too
  have hnone (e : Descriptor) (he : e ∈ before ∨ e ∈ after) :
      ¬ e.isCandidate scope mnemonic operands alternate := by
    intro hcand'
    have hmem : e ∈ all := by rw [hall]; aesop
    obtain ⟨t, u, -, -, ht, hu, hcode⟩ := code_eq_of_isCandidate hshaped hd hmem hcand hcand'
    rcases he with he | he
    · exact hbefore e he d List.mem_cons_self u hu t ht hcode.symm
    · exact hafter e he t ht u hu hcode
  rw [hall, List.filter_append, List.filter_cons_of_pos hcand,
    List.filter_eq_nil_iff.2 fun e he => hnone e (.inl he),
    List.filter_eq_nil_iff.2 fun e he => hnone e (.inr he)]
  rfl

/-- **An alternate template never accepts what a template accepts.** -/
theorem not_isCandidate_of_alternate {d e : Descriptor} (hd : d ∈ all) (he : e ∈ all)
    (hcand : d.isCandidate scope mnemonic operands true) :
    ¬ e.isCandidate scope mnemonic operands false := by
  intro hcand'
  obtain ⟨t, u, ht, hu, htmem, humem, hcode⟩ :=
    code_eq_of_isCandidate hshaped hd he hcand hcand'
  have hdup := (isCandidate_iff.1 hcand).1
  by_cases hde : d = e
  · subst hde
    obtain rfl : d.template = u := by simpa [spelling?] using hu
    exact code_ne_of_alternate hd hdup (by simpa [spelling?] using ht) hcode.symm
  · have hsymm : Std.Symm fun d e : Descriptor =>
        ∀ t ∈ d.choices, ∀ u ∈ e.choices, t.code ≠ u.code :=
      ⟨fun _ _ h t ht u hu => (h u hu t ht).symm⟩
    exact pairwise_all.forall hd he hde t htmem u humem hcode

end Candidates

end Descriptor

/-! ### Resolving instructions -/

open Descriptor

/-- What a source instruction denotes: a descriptor of the catalog that is a candidate by the
template that is named. -/
structure Resolved.Denotes (r : Resolved) (scope : Expr.Scope) (word : String)
    (operands : List Operand) : Prop where
  mem_all : r.descriptor ∈ all
  spelling : r.descriptor.spelling? r.isAlternate = some r.template
  isDuplicate : r.descriptor.isDuplicate = false
  mnemonic : Mnemonic.ofText? word = some r.template.mnemonic
  accepts : r.template.accepts scope operands

/-- A descriptor that is a candidate is denoted. -/
lemma Resolved.denotes_of_isCandidate {scope : Expr.Scope} {word : String} {mnemonic : Mnemonic}
    {operands : List Operand} {alternate : Bool} {d : Descriptor} (hd : d ∈ all)
    (hword : Mnemonic.ofText? word = some mnemonic)
    (hcand : d.isCandidate scope mnemonic operands alternate) :
    (⟨d, (d.spelling? alternate).getD d.template, alternate⟩ : Resolved).Denotes scope word
      operands := by
  obtain ⟨hdup, t, ht, rfl, haccepts⟩ := isCandidate_iff.1 hcand
  exact ⟨hd, by simp [ht], hdup, by simp [ht, hword], by simpa [ht] using haccepts⟩

section Candidates

variable {scope : Expr.Scope} {word : String} {operands : List Operand} {d : Descriptor}
  {alternate : Bool}

/-- A candidate is a descriptor of the catalog whose template accepts the operands. -/
lemma mem_candidates_iff : d ∈ candidates scope word operands alternate ↔
    ∃ mnemonic, Mnemonic.ofText? word = some mnemonic ∧ d ∈ all ∧
      d.isCandidate scope mnemonic operands alternate := by
  cases h : Mnemonic.ofText? word <;> simp [candidates, h]

variable (hshaped : ∀ operand ∈ operands, operand.IsShaped)

include hshaped

/-- A candidate is the only one that goes by such a template. -/
lemma candidates_eq_singleton (hd : d ∈ candidates scope word operands alternate) :
    candidates scope word operands alternate = [d] := by
  obtain ⟨mnemonic, hword, hmem, hcand⟩ := mem_candidates_iff.1 hd
  rw [candidates, hword]
  exact filter_isCandidate hshaped hmem hcand

/-- Where there is a candidate by an alternate template, there is none by a template proper. -/
lemma candidates_eq_nil (hd : d ∈ candidates scope word operands true) :
    candidates scope word operands false = [] := by
  obtain ⟨mnemonic, hword, hmem, hcand⟩ := mem_candidates_iff.1 hd
  rw [candidates, hword]
  exact List.filter_eq_nil_iff.2 fun e he => not_isCandidate_of_alternate hshaped hmem he hcand

/-- What a candidate is a candidate for is resolved to it. -/
lemma resolve_of_mem_candidates (hd : d ∈ candidates scope word operands alternate) :
    resolve scope word operands = .ok ⟨d, (d.spelling? alternate).getD d.template, alternate⟩ := by
  have hsingle := candidates_eq_singleton hshaped hd
  cases alternate with
  | false => simp [resolve, hsingle, spelling?]
  | true => simp [resolve, hsingle, candidates_eq_nil hshaped hd]

end Candidates

/-- **Source instructions have one meaning**: resolving finds the one descriptor that is denoted,
and fails only if there is none. -/
theorem resolve_eq_ok_iff {scope : Expr.Scope} {word : String} {operands : List Operand}
    (hshaped : ∀ operand ∈ operands, operand.IsShaped) {r : Resolved} :
    resolve scope word operands = .ok r ↔ r.Denotes scope word operands := by
  constructor
  · intro h
    have hdenotes (d : Descriptor) (alternate : Bool)
        (hd : d ∈ candidates scope word operands alternate) :
        (⟨d, (d.spelling? alternate).getD d.template, alternate⟩ : Resolved).Denotes scope word
          operands := by
      obtain ⟨mnemonic, hword, hmem, hcand⟩ := mem_candidates_iff.1 hd
      exact Resolved.denotes_of_isCandidate hmem hword hcand
    unfold resolve at h
    split at h
    · next d hd =>
      obtain rfl := Except.ok.inj h
      exact hdenotes d false (by simp [hd])
    · split at h
      · next d hd =>
        obtain rfl := Except.ok.inj h
        exact hdenotes d true (by simp [hd])
      · simp at h
      · simp at h
    · simp at h
  · intro h
    obtain ⟨d, t, alternate⟩ := r
    obtain ⟨hmem, hspelling, hdup, hword, haccepts⟩ := h
    dsimp only at hmem hspelling hdup hword haccepts
    have hcand : d.isCandidate scope t.mnemonic operands alternate :=
      isCandidate_iff.2 ⟨hdup, t, hspelling, rfl, haccepts⟩
    have hd : d ∈ candidates scope word operands alternate :=
      mem_candidates_iff.2 ⟨t.mnemonic, hword, hmem, hcand⟩
    rw [resolve_of_mem_candidates hshaped hd, hspelling, Option.getD_some]

/-- **Operands tell templates apart.**  Whatever the names and the location, a word and the texts of
operands have at most one candidate, by its template or by its alternate template; so resolving
never finds several, and what a descriptor is a candidate for by its alternate template is a
candidate for no template proper and is resolved to this descriptor. -/
theorem candidates_unambiguous (scope : Expr.Scope) (word : String) (texts : List String) :
    (candidates scope word (texts.map .ofText) false ++
      candidates scope word (texts.map .ofText) true).length ≤ 1 ∧
    (∀ text templates,
      resolve scope word (texts.map .ofText) ≠ .error (.ambiguous text templates)) ∧
    ∀ d ∈ candidates scope word (texts.map .ofText) true,
      candidates scope word (texts.map .ofText) false = [] ∧
      ∃ t, d.alternate = some t ∧ resolve scope word (texts.map .ofText) = .ok ⟨d, t, true⟩ := by
  have hshaped := Operand.isShaped_of_mem_map texts
  generalize texts.map Operand.ofText = operands at hshaped ⊢
  refine ⟨?_, fun text templates => ?_, fun d hd => ⟨candidates_eq_nil hshaped hd, ?_⟩⟩
  · cases hproper : candidates scope word operands false with
    | nil =>
      cases halternate : candidates scope word operands true with
      | nil => simp
      | cons d ds =>
        have hsingle := candidates_eq_singleton hshaped (halternate ▸ List.mem_cons_self)
        rw [← halternate, hsingle]
        simp
    | cons d ds =>
      have hsingle := candidates_eq_singleton hshaped (hproper ▸ List.mem_cons_self)
      have hnone : candidates scope word operands true = [] := by
        refine List.eq_nil_iff_forall_not_mem.2 fun e he => ?_
        cases hproper.symm.trans (candidates_eq_nil hshaped he)
      rw [← hproper, hsingle, hnone]
      simp
  · by_cases h : ∃ d alternate, d ∈ candidates scope word operands alternate
    · obtain ⟨d, alternate, hd⟩ := h
      simp [resolve_of_mem_candidates hshaped hd]
    · have hnone (alternate : Bool) : candidates scope word operands alternate = [] :=
        List.eq_nil_iff_forall_not_mem.2 fun d hd => h ⟨d, alternate, hd⟩
      simp [resolve, hnone]
  · obtain ⟨mnemonic, -, -, hcand⟩ := mem_candidates_iff.1 hd
    obtain ⟨-, t, ht, -⟩ := isCandidate_iff.1 hcand
    refine ⟨t, by simpa [spelling?] using ht, ?_⟩
    rw [resolve_of_mem_candidates hshaped hd, ht, Option.getD_some]

/-- An input that sets nothing but flags is found by its alternate template, which names them. -/
theorem candidates_unambiguous_flags : ∃ d t,
    d ∈ candidates (.bare 0) "in" (["f", "(c)"].map .ofText) true ∧ d.alternate = some t ∧
      resolve (.bare 0) "in" (["f", "(c)"].map .ofText) = .ok ⟨d, t, true⟩ := by
  have hsome : candidates (.bare 0) "in" (["f", "(c)"].map .ofText) true ≠ [] := by
    decide +kernel
  obtain ⟨d, hd⟩ := List.exists_mem_of_ne_nil _ hsome
  obtain ⟨-, -, halternate⟩ := candidates_unambiguous (.bare 0) "in" ["f", "(c)"]
  obtain ⟨-, t, ht, hresolve⟩ := halternate d hd
  exact ⟨d, t, hd, ht, hresolve⟩

/-! ### Further names -/

section Extends

variable {t s : Expr.Scope} (h : t.Extends s)

include h

/-- A number that is matched is matched when further names are known. -/
lemma literalMatches_extends {literal text : String} (hs : literalMatches s literal text) :
    literalMatches t literal text := by
  unfold literalMatches at hs ⊢
  cases hactual : Expr.evaluate s text with
  | error fault => cases hl : Expr.evaluate (.bare 0) literal <;> simp [hl, hactual] at hs
  | ok v => simpa [Expr.evaluate_extends h hactual, hactual] using hs

/-- A slot accepts what it accepted when further names are known. -/
lemma Slot.accepts_extends {mnemonic : Mnemonic} {operand : Operand} {slot : Slot}
    (hs : slot.accepts s mnemonic operand) : slot.accepts t mnemonic operand := by
  cases slot with
  | literal text =>
    simp only [accepts, Bool.and_eq_true] at hs ⊢
    exact ⟨hs.1, literalMatches_extends h hs.2⟩
  | named | byte | word | relative | port | address | indexed => exact hs

/-- A template accepts what it accepted when further names are known. -/
lemma Template.accepts_extends {template : Template} {operands : List Operand}
    (hs : template.accepts s operands) : template.accepts t operands := by
  simp only [accepts, Bool.and_eq_true, List.all_eq_true] at hs ⊢
  exact ⟨hs.1, fun filled hmem => Slot.accepts_extends h (hs.2 filled hmem)⟩

/-- **An instruction keeps its meaning when further names are given values.** -/
theorem resolve_extends {word : String} {operands : List Operand}
    (hshaped : ∀ operand ∈ operands, operand.IsShaped) {r : Resolved}
    (hs : resolve s word operands = .ok r) : resolve t word operands = .ok r := by
  rw [resolve_eq_ok_iff hshaped] at hs ⊢
  exact { hs with accepts := Template.accepts_extends h hs.accepts }

end Extends

end Z80
