import Z80.Disassembly.Labels
import Z80.Proofs.Disassembly.Operands

/-!
# Labels stand for one address each

Labels are numbered in the order in which they are given, jumps and calls apart.  So no label is
given twice, and a label that was given stays with its address.

## Main definitions

* `Z80.Labels.name` — the label of a kind with a number.
* `Z80.Labels.IsNumbered` — labels that were given in order.
* `Z80.Labels.Extends` — labels with at least those of other labels.

## Main results

* `Z80.Labels.isLabelName_name`, `Z80.Labels.name_inj` — labels are names, and all are different.
* `Z80.Labels.IsNumbered.assign` — labels stay numbered when one more is given.
* `Z80.Labels.IsNumbered.isLabelling` — numbered labels are names that a disassembly gives.
-/

namespace Z80.Labels

/-! ### Names -/

/-- What all labels of a kind start with. -/
def Kind.front : Kind → String
  | jump => "lbl_jmp"
  | subroutine => "lbl_sub"

/-- The label of a kind with a number. -/
def name (kind : Kind) (n : Nat) : String :=
  kind.front ++ ordinal n

/-- The digits of an ordinal. -/
lemma toList_ordinal (n : Nat) :
    (ordinal n).toList =
      List.replicate (4 - (toString n).length) '0' ++ Nat.toDigits 10 n := by
  rw [ordinal, String.toList_append, String.toList_ofList]
  congr 1
  exact Nat.toList_repr

/-- An ordinal is written with digits. -/
lemma isDigit_of_mem_ordinal {n : Nat} {c : Char} (h : c ∈ (ordinal n).toList) : c.isDigit := by
  rw [toList_ordinal, List.mem_append] at h
  rcases h with hmem | hmem
  · rw [List.eq_of_mem_replicate hmem]
    decide
  · exact Nat.isDigit_of_mem_toDigits (by decide) (by decide) hmem

/-- Different numbers have different ordinals. -/
lemma ordinal_inj {m n : Nat} (h : (ordinal m).toList = (ordinal n).toList) : m = n := by
  have key : ∀ k, Nat.ofDigitChars 10 (ordinal k).toList 0 = k := by
    intro k
    rw [toList_ordinal, Nat.ofDigitChars_append, Nat.ofDigitChars_replicate_zero, Nat.mul_zero,
      Nat.ofDigitChars_ten_toDigits]
  rw [← key m, h, key]

/-- **Labels are names**, in lower case and with a front of their own. -/
theorem isLabelName_name (kind : Kind) (n : Nat) : IsLabelName (name kind n) := by
  have hfront : kind.front.toList.all Expr.isWordChar ∧
      kind.front.toList.map Char.toLower = kind.front.toList := by
    cases kind <;> decide
  have hdigit : ∀ c ∈ (ordinal n).toList, c.isDigit := fun c hc => isDigit_of_mem_ordinal hc
  have hword : ∀ c ∈ (ordinal n).toList, Expr.isWordChar c := by
    intro c hc
    have halphanum : c.isAlphanum := by simp [Char.isAlphanum, hdigit c hc]
    exact Expr.isWordChar_of_isAlphanum halphanum
  have hlower : (ordinal n).toList.map Char.toLower = (ordinal n).toList := by
    conv_rhs => rw [← List.map_id (ordinal n).toList]
    exact List.map_congr_left fun c hc => Expr.toLower_of_isDigit (hdigit c hc)
  refine ⟨⟨?_, ?_, ?_, ?_, ?_⟩, ?_⟩
  all_goals rw [name, String.toList_append]
  · cases kind <;> exact ⟨'l', rfl, by decide⟩
  · intro c hc
    rcases List.mem_append.1 hc with hmem | hmem
    · exact List.all_eq_true.1 hfront.1 c hmem
    · exact hword c hmem
  · rw [List.map_append, hlower, hfront.2]
  · cases kind <;> simp [Kind.front]
  · cases kind <;> simp [Kind.front]
  · cases kind <;> rfl

/-- **Different labels have different names.** -/
theorem name_inj {kind kind' : Kind} {m n : Nat} (h : name kind m = name kind' n) :
    kind = kind' ∧ m = n := by
  have hchars := congrArg String.toList h
  rw [name, name, String.toList_append, String.toList_append] at hchars
  have hkind : kind = kind' := by
    have hlength : ∀ k : Kind, k.front.toList.length = 7 := by
      intro k
      cases k <;> decide
    have hfront := (List.append_inj hchars ((hlength kind).trans (hlength kind').symm)).1
    rw [String.toList_inj] at hfront
    cases kind <;> cases kind'
    · rfl
    · exact absurd hfront (by decide)
    · exact absurd hfront (by decide)
    · rfl
  subst hkind
  exact ⟨rfl, ordinal_inj (List.append_cancel_left hchars)⟩

/-! ### Numbering -/

/-- The number of labels of a kind. -/
def count (labels : Labels) : Kind → Nat
  | .jump => labels.jumps
  | .subroutine => labels.subroutines

/-- Labels that were given in order: each is numbered, and no two addresses have the same. -/
structure IsNumbered (labels : Labels) : Prop where
  exists_name : ∀ {address : UInt16} {label : String}, labels.find? address = some label →
    ∃ kind n, n ≤ labels.count kind ∧ label = name kind n
  inj : ∀ {a b : UInt16} {label : String}, labels.find? a = some label →
    labels.find? b = some label → a = b

/-- The labels `more` have the labels of `labels`. -/
def Extends (more labels : Labels) : Prop :=
  ∀ (address : UInt16) (label : String), labels.find? address = some label →
    more.find? address = some label

lemma Extends.refl (labels : Labels) : labels.Extends labels := fun _ _ => id

lemma Extends.trans {most more labels : Labels} (h : most.Extends more)
    (h' : more.Extends labels) : most.Extends labels :=
  fun address label hfind => h address label (h' address label hfind)

/-- No labels are numbered. -/
lemma isNumbered_empty : empty.IsNumbered where
  exists_name h := by simp [find?, empty] at h
  inj h := by simp [find?, empty] at h

section Assign

variable (labels : Labels) (address : UInt16) (kind : Kind)

/-- What is given to an address that has no label. -/
lemma find?_assign (a : UInt16) : (labels.assign address kind).find? a =
    if labels.find? address = none ∧ address = a then
      some (name kind (labels.count kind + 1)) else labels.find? a := by
  unfold assign
  cases hfound : labels.find? address with
  | some label => simp
  | none =>
    obtain ⟨names, jumps, subroutines⟩ := labels
    cases kind with
    | jump => simp [find?, AddressMap.get_set, name, Kind.front, count]
    | subroutine => simp [find?, AddressMap.get_set, name, Kind.front, count]

/-- A label that was given stays. -/
lemma assign_extends : (labels.assign address kind).Extends labels := by
  intro a label hfound
  rw [find?_assign, if_neg]
  · exact hfound
  · rintro ⟨hnone, rfl⟩
    rw [hnone] at hfound
    simp at hfound

/-- The address that is given a label has one. -/
lemma isSome_find?_assign : ((labels.assign address kind).find? address).isSome := by
  rw [find?_assign]
  cases hfound : labels.find? address with
  | some label => simp
  | none => simp

/-- Labels are counted up where one is given. -/
lemma count_assign (other : Kind) : (labels.assign address kind).count other =
    if labels.find? address = none ∧ kind = other then labels.count other + 1
    else labels.count other := by
  unfold assign
  cases hfound : labels.find? address with
  | some label => simp
  | none =>
    obtain ⟨names, jumps, subroutines⟩ := labels
    cases kind <;> cases other <;> simp [count]

variable {labels}

/-- **Labels stay numbered when one more is given.** -/
theorem IsNumbered.assign (h : labels.IsNumbered) : (labels.assign address kind).IsNumbered := by
  -- a new label has a number above all numbers of its kind
  have hnew : ∀ {a : UInt16}, labels.find? a ≠ some (name kind (labels.count kind + 1)) := by
    intro a hfound
    obtain ⟨kind', n, hn, heq⟩ := h.exists_name hfound
    obtain ⟨rfl, rfl⟩ := name_inj heq
    omega
  constructor
  · intro a label hfound
    rw [find?_assign] at hfound
    split at hfound
    · next hnone =>
      obtain rfl := Option.some.inj hfound
      refine ⟨kind, labels.count kind + 1, ?_, rfl⟩
      rw [count_assign, if_pos ⟨hnone.1, rfl⟩]
    · obtain ⟨kind', n, hn, rfl⟩ := h.exists_name hfound
      refine ⟨kind', n, ?_, rfl⟩
      rw [count_assign]
      split <;> omega
  · intro a b label ha hb
    rw [find?_assign] at ha hb
    split at ha
    · next hnone =>
      obtain rfl := Option.some.inj ha
      split at hb
      · next hnone' => exact hnone.2.symm.trans hnone'.2
      · exact absurd hb hnew
    · split at hb
      · obtain rfl := Option.some.inj hb
        exact absurd ha hnew
      · exact h.inj ha hb

/-- The labels of numbered labels are names that a disassembly gives. -/
lemma IsNumbered.isLabelling (h : labels.IsNumbered) : IsLabelling labels.find? := by
  intro a label hfound
  obtain ⟨kind, n, -, rfl⟩ := h.exists_name hfound
  exact isLabelName_name kind n

end Assign

end Z80.Labels
