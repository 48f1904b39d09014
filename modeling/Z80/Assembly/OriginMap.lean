import Z80.AddressMap

/-!
# Origins of bytes

Which line of the source text wrote the byte at each address.  A byte is written once.

## Main definitions

* `Z80.OriginMap` — the line of each address that was written.
* `Z80.OriginMap.claim` — one more address, unless a line has it already.
* `Z80.OriginMap.range?` — the lowest and the highest address that were written.
-/

namespace Z80

/-- The line that wrote the byte at each address, if one did. -/
structure OriginMap where
  owners : AddressMap (Option Nat)

namespace OriginMap

/-- The map in which no address was written. -/
def blank : OriginMap :=
  ⟨.fill none⟩

/-- The line that wrote the byte at an address. -/
def lineAt? (map : OriginMap) (address : UInt16) : Option Nat :=
  map.owners.get address

/-- The map in which a line wrote the byte at an address. -/
def assign (map : OriginMap) (address : UInt16) (line : Nat) : OriginMap :=
  ⟨map.owners.set address (some line)⟩

/-- The map with an address for a line, or the line that wrote the byte already. -/
def claim (map : OriginMap) (address : UInt16) (line : Nat) : Except Nat OriginMap :=
  match map.lineAt? address with
  | some previous => .error previous
  | none => .ok (map.assign address line)

/-- Whether the byte at an address was written. -/
def isOwned (map : OriginMap) (address : UInt16) : Bool :=
  (map.lineAt? address).isSome

/-- The addresses that were written, in ascending order. -/
def owned (map : OriginMap) : List UInt16 :=
  allAddresses.filter map.isOwned

/-- The addresses that a line wrote, in ascending order. -/
def addressesOf (map : OriginMap) (line : Nat) : List UInt16 :=
  allAddresses.filter fun address => map.lineAt? address == some line

/-- The number of addresses that were written. -/
def size (map : OriginMap) : Nat :=
  map.owned.length

/-- The lowest and the highest address that were written. -/
def range? (map : OriginMap) : Option (UInt16 × UInt16) :=
  match map.owned with
  | [] => none
  | low :: more => some (low, more.getLast?.getD low)

@[simp]
theorem lineAt?_blank (address : UInt16) : blank.lineAt? address = none := by
  simp [blank, lineAt?]

/-- A line is found at the address it was assigned last, and nowhere else. -/
theorem lineAt?_assign (map : OriginMap) (a b : UInt16) (line : Nat) :
    (map.assign a line).lineAt? b = if a = b then some line else map.lineAt? b := by
  simp [lineAt?, assign, AddressMap.get_set]

end OriginMap

end Z80
