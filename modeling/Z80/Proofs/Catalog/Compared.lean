import Z80.Proofs.Catalog.Unambiguous
import Z80.Proofs.Expr.Mention

/-!
# Operands that choose an instruction by their value

The number of a bit, the mode of an interrupt and the address of a restart are part of the opcode,
so an instruction is chosen by comparing its operand with the numbers that templates spell out.  All
other operands are left alone until the bytes are written, and need no value to be accepted.

## Main definitions

* `Z80.comparedOperands` — the operands of an instruction that are compared with numbers.

## Main results

* `Z80.Slot.accepts_without_iff` — what a slot still accepts without a name.
* `Z80.resolve_without_eq_ok_iff` — when an instruction still has its meaning without a name.
-/

namespace Z80

/-! ### Compared operands -/

namespace Operand

/-- Whether an operand in a role is compared with numbers.  A register never is. -/
def isCompared (operand : Operand) : Role → Bool
  | .digit | .restart => !operand.shape.isRegisterForm
  | .condition | .target | .general => false

/-- The operands that are compared with numbers, from a place on among so many operands of a
mnemonic. -/
def comparedFrom (mnemonic : Mnemonic) (count : Nat) :
    (place : Nat) → List Operand → List Operand
  | _, [] => []
  | place, operand :: operands =>
    let more := comparedFrom mnemonic count (place + 1) operands
    if operand.isCompared (.at mnemonic count place) then operand :: more else more

end Operand

/-- The operands of a source instruction that are compared with numbers. -/
def comparedOperands (word : String) (operands : List Operand) : List Operand :=
  match Mnemonic.ofText? word with
  | some mnemonic => Operand.comparedFrom mnemonic operands.length 0 operands
  | none => []

/-! ### Without a name -/

section Without

variable {scope : Expr.Scope} {name : String} {mnemonic : Mnemonic} {operand : Operand}

/-- A number that a text is worth is matched without a name if the text does not mention it. -/
lemma literalMatches_without_iff {literal text : String} (h : literalMatches scope literal text) :
    literalMatches (scope.without name) literal text ↔ Expr.mentions name text = false := by
  cases hmentions : Expr.mentions name text with
  | false => simpa [literalMatches, Expr.evaluate_without hmentions] using h
  | true =>
    have hnone : ∀ value, Expr.evaluate (scope.without name) text ≠ .ok value :=
      fun _ => Expr.evaluate_without_ne_ok hmentions
    unfold literalMatches
    split <;> simp_all

/-- The operand that a slot accepts is compared if the slot spells out a number. -/
lemma Slot.isCompared_iff {slot : Slot} {role : Role} (hshape : operand.IsShaped)
    (hfits : slot.fits mnemonic role) (haccepts : slot.accepts scope mnemonic operand) :
    operand.isCompared role ↔ ∃ text, slot = .literal text := by
  cases slot with
  | literal text =>
    obtain ⟨hform, -⟩ : operand.shape.isRegisterForm = false ∧ _ := by
      simpa [accepts] using haccepts
    cases role with
    | digit | restart => simp [Operand.isCompared, hform]
    | condition | target | general => simp [fits] at hfits
  | named text =>
    cases role with
    | digit =>
      -- the operand is a register, whatever its case
      have hcompact : operand.compact = text := by simpa [accepts] using haccepts
      have hmem : text ∈ registerForms := List.mem_append_left _ (mem_of_isAmong hfits)
      rw [Operand.IsShaped, hcompact, ofCompact_registerForms text hmem] at hshape
      simp [Operand.isCompared, hshape, Operand.Shape.isRegisterForm]
    | restart => simp [fits] at hfits
    | condition | target | general => simp [Operand.isCompared]
  | byte | word | relative | port | address | indexed =>
    cases role with
    | digit | restart => simp [fits] at hfits
    | condition | target | general => simp [Operand.isCompared]

/-- **A slot accepts an operand without a name** unless the operand is compared with a number and
mentions the name. -/
theorem Slot.accepts_without_iff {slot : Slot} {role : Role} (hshape : operand.IsShaped)
    (hfits : slot.fits mnemonic role) (haccepts : slot.accepts scope mnemonic operand) :
    slot.accepts (scope.without name) mnemonic operand ↔
      (operand.isCompared role → Expr.mentions name operand.text = false) := by
  rw [isCompared_iff hshape hfits haccepts]
  cases slot with
  | literal text =>
    simp only [accepts, Bool.and_eq_true] at haccepts ⊢
    simp [haccepts.1, literalMatches_without_iff haccepts.2]
  | named | byte | word | relative | port | address | indexed =>
    simp only [reduceCtorEq, exists_false, false_imp_iff, iff_true]
    simpa only [accepts] using haccepts

/-- Slots accept operands without a name unless one of the operands is compared with a number and
mentions the name. -/
lemma Slot.all_accepts_without_iff {count : Nat} :
    ∀ {slots : List Slot} {operands : List Operand} (place : Nat),
      (∀ operand ∈ operands, operand.IsShaped) → slots.length = operands.length →
      fitFrom mnemonic count place slots →
      ((slots.zip operands).all fun (slot, operand) => slot.accepts scope mnemonic operand) →
      (((slots.zip operands).all fun (slot, operand) =>
          slot.accepts (scope.without name) mnemonic operand) ↔
        ∀ operand ∈ Operand.comparedFrom mnemonic count place operands,
          Expr.mentions name operand.text = false)
  | [], [], _, _, _, _, _ => by simp [Operand.comparedFrom]
  | slot :: slots, operand :: operands, place, hshaped, hlength, hfits, haccepts => by
    simp only [fitFrom, Bool.and_eq_true] at hfits
    simp only [List.zip_cons_cons, List.all_cons, Bool.and_eq_true] at haccepts ⊢
    obtain ⟨hfirst, hothers⟩ := List.forall_mem_cons.1 hshaped
    rw [accepts_without_iff hfirst hfits.1 haccepts.1,
      all_accepts_without_iff (place + 1) hothers (Nat.succ.inj hlength) hfits.2 haccepts.2,
      Operand.comparedFrom]
    by_cases hcompared : operand.isCompared (.at mnemonic count place)
    · simp [hcompared]
    · simp [hcompared]

/-- **An instruction has its meaning without a name** unless it compares an operand that mentions
the name with a number; then it has none.

**Proof sketch.** What is denoted without the name is denoted with it, so there is no other meaning.
The template that accepts the operands spells out a number in the places where operands are
compared, and no others depend on names. -/
theorem resolve_without_eq_ok_iff {word : String} {operands : List Operand} {r found : Resolved}
    (hshaped : ∀ operand ∈ operands, operand.IsShaped) (h : resolve scope word operands = .ok r) :
    resolve (scope.without name) word operands = .ok found ↔
      found = r ∧ ∀ operand ∈ comparedOperands word operands,
        Expr.mentions name operand.text = false := by
  have hdenotes := (resolve_eq_ok_iff hshaped).1 h
  have hregular := Descriptor.isRegular_of_mem_all hdenotes.mem_all
    (Descriptor.mem_spellings_of_spelling? hdenotes.spelling)
  have haccepts := hdenotes.accepts
  simp only [Template.accepts, Bool.and_eq_true, beq_iff_eq] at haccepts
  rw [Template.isRegular, haccepts.1] at hregular
  rw [comparedOperands, hdenotes.mnemonic]
  dsimp only
  rw [← Slot.all_accepts_without_iff 0 hshaped haccepts.1 hregular haccepts.2]
  constructor
  · intro hfound
    obtain rfl := Except.ok.inj
      (h.symm.trans (resolve_extends (scope.extends_without name) hshaped hfound))
    have hwithout := ((resolve_eq_ok_iff hshaped).1 hfound).accepts
    simp only [Template.accepts, Bool.and_eq_true] at hwithout
    exact ⟨rfl, hwithout.2⟩
  · rintro ⟨rfl, hall⟩
    refine (resolve_eq_ok_iff hshaped).2 { hdenotes with accepts := ?_ }
    simp only [Template.accepts, Bool.and_eq_true, beq_iff_eq]
    exact ⟨haccepts.1, hall⟩

end Without

end Z80
