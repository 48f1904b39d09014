/-!
# Maps over the address space

A word addresses 65536 places.  What stands at each of them is kept in a map that is defined
everywhere, so that looking up and changing a place never fails.

## Main definitions

* `Z80.AddressMap` — a value at each address, with `Z80.AddressMap.get` and `Z80.AddressMap.set`.
* `Z80.allAddresses` — the addresses in ascending order.

## Main results

* `Z80.AddressMap.get_set` — a value is found where it was put last, and nowhere else.
* `Z80.AddressMap.ext_get` — a map is determined by its values.
-/

namespace Z80

/-- The number of addresses. -/
abbrev addressCount : Nat := UInt16.size

/-- All addresses in ascending order. -/
def allAddresses : List UInt16 :=
  (List.range addressCount).map UInt16.ofNat

/-- A value at each address. -/
structure AddressMap (α : Type) where
  cells : Vector α addressCount

namespace AddressMap

variable {α : Type}

/-- The map with the same value at each address. -/
def fill (x : α) : AddressMap α :=
  ⟨Vector.replicate addressCount x⟩

/-- The value at an address. -/
def get (m : AddressMap α) (address : UInt16) : α :=
  m.cells[address.toFin]

/-- The map with another value at an address. -/
def set (m : AddressMap α) (address : UInt16) (x : α) : AddressMap α :=
  ⟨m.cells.set address.toNat x address.toNat_lt⟩

/-- The map with the same value at the `count` addresses from one on. -/
def setRange (m : AddressMap α) (address : UInt16) (x : α) : (count : Nat) → AddressMap α
  | 0 => m
  | count + 1 => (m.set address x).setRange (address + 1) x count

@[simp]
theorem get_fill (x : α) (address : UInt16) : (fill x).get address = x := by
  simp [fill, get]

/-- A value is found where it was put last, and nowhere else. -/
theorem get_set (m : AddressMap α) (a b : UInt16) (x : α) :
    (m.set a x).get b = if a = b then x else m.get b := by
  simp [get, set, Fin.getElem_fin, Vector.getElem_set, UInt16.toNat_inj]

/-- A map is determined by its values. -/
theorem ext_get {m n : AddressMap α} (h : ∀ a, m.get a = n.get a) : m = n := by
  cases m with
  | mk cells =>
    cases n with
    | mk others =>
      congr 1
      apply Vector.ext
      intro i hi
      have := h (UInt16.ofNat i)
      simpa [get, Fin.getElem_fin, Nat.mod_eq_of_lt hi] using this

end AddressMap

end Z80
