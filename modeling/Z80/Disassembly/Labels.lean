import Z80.AddressMap

/-!
# Labels for targets

The targets of jumps and calls are named in the order in which they are met, jumps and calls
counted apart.

## Main definitions

* `Z80.Labels` — the labels given so far, with `Z80.Labels.find?` and `Z80.Labels.assign`.
-/

namespace Z80

/-- What a label is the target of. -/
inductive Labels.Kind where
  | jump | subroutine
  deriving DecidableEq, Repr

/-- The labels of addresses, and how many of each kind there are. -/
structure Labels where
  names : AddressMap (Option String)
  jumps : Nat
  subroutines : Nat

namespace Labels

/-- No labels. -/
def empty : Labels :=
  ⟨.fill none, 0, 0⟩

/-- The label of an address. -/
def find? (labels : Labels) (address : UInt16) : Option String :=
  labels.names.get address

/-- A number in decimal, with zeros in front up to four digits. -/
def ordinal (n : Nat) : String :=
  let digits := toString n
  String.ofList (List.replicate (4 - digits.length) '0') ++ digits

/-- The labels with one for an address, unless the address has one. -/
def assign (labels : Labels) (address : UInt16) (kind : Kind) : Labels :=
  match labels.find? address with
  | some _ => labels
  | none =>
    match labels, kind with
    | ⟨names, jumps, subroutines⟩, .jump =>
      ⟨names.set address (some ("lbl_jmp" ++ ordinal (jumps + 1))), jumps + 1, subroutines⟩
    | ⟨names, jumps, subroutines⟩, .subroutine =>
      ⟨names.set address (some ("lbl_sub" ++ ordinal (subroutines + 1))), jumps,
        subroutines + 1⟩

end Labels

end Z80
