import Z80.AddressMap
import Z80.Word

/-!
# Memory

A byte at each address.  Addresses wrap, so what is loaded past the last address goes on at the
first.

## Main definitions

* `Z80.Memory` — a byte per address, with `Z80.Memory.read` and `Z80.Memory.write`.
* `Z80.Memory.load` — consecutive bytes written from an address on.
* `Z80.Bus` — what a processor sees of memory: bytes to read and to write.
* `Z80.Guarded` — memory with a range of addresses at which writes have no effect.

## Main results

* `Z80.Memory.read_write` — a byte is read where it was last written, and nowhere else.
* `Z80.Memory.ext_read` — memory is determined by what is read from it.
-/

namespace Z80

/-- A byte at each address. -/
structure Memory where
  cells : AddressMap UInt8

namespace Memory

/-- Memory that holds zero at every address. -/
def blank : Memory :=
  ⟨.fill 0⟩

/-- The byte at an address. -/
def read (m : Memory) (address : UInt16) : UInt8 :=
  m.cells.get address

/-- Memory with a byte at an address. -/
def write (m : Memory) (address : UInt16) (b : UInt8) : Memory :=
  ⟨m.cells.set address b⟩

/-- Memory with consecutive bytes from an address on. -/
def load (m : Memory) (address : UInt16) : List UInt8 → Memory
  | [] => m
  | b :: bytes => (m.write address b).load (address + 1) bytes

/-- The `count` bytes from an address on. -/
def slice (m : Memory) (address : UInt16) : (count : Nat) → List UInt8
  | 0 => []
  | count + 1 => m.read address :: m.slice (address + 1) count

/-- The number of addresses that hold no zero. -/
def nonzeroCount (m : Memory) : Nat :=
  allAddresses.countP fun address => m.read address != 0

@[simp]
theorem read_blank (address : UInt16) : blank.read address = 0 := by
  simp [blank, read]

/-- A byte is read where it was last written, and nowhere else. -/
theorem read_write (m : Memory) (a b : UInt16) (v : UInt8) :
    (m.write a v).read b = if a = b then v else m.read b := by
  simp [read, write, AddressMap.get_set]

/-- Memory is determined by what is read from it. -/
theorem ext_read {m n : Memory} (h : ∀ a, m.read a = n.read a) : m = n := by
  cases m
  cases n
  congr 1
  exact AddressMap.ext_get h

end Memory

/-- What a processor sees of memory. -/
class Bus (M : Type) where
  read : M → UInt16 → UInt8
  write : M → UInt16 → UInt8 → M
  /-- Writes zero to every address. -/
  clear : M → M

namespace Bus

variable {M : Type} [Bus M]

/-- The word whose low byte is at an address and whose high byte is at the next. -/
def readWord (m : M) (address : UInt16) : UInt16 :=
  wordOf (read m address) (read m (address + 1))

/-- Memory with a word at an address, its low byte first. -/
def writeWord (m : M) (address w : UInt16) : M :=
  write (write m address (lowByte w)) (address + 1) (highByte w)

end Bus

instance : Bus Memory where
  read := Memory.read
  write := Memory.write
  clear _ := .blank

/-- Memory with a range of addresses, both ends included, at which writes have no effect. -/
structure Guarded where
  memory : Memory
  range : Option (UInt16 × UInt16)

namespace Guarded

/-- Whether writes to an address have no effect. -/
def protects (g : Guarded) (address : UInt16) : Bool :=
  match g.range with
  | some (low, high) => low ≤ address && address ≤ high
  | none => false

/-- Guarded memory with a byte at an address, unless that is protected. -/
def write (g : Guarded) (address : UInt16) (b : UInt8) : Guarded :=
  if g.protects address then g
  else
    match g with
    | ⟨memory, range⟩ => ⟨memory.write address b, range⟩

/-- Guarded memory with zero at every address that is not protected. -/
def clear (g : Guarded) : Guarded :=
  allAddresses.foldl (fun g address => g.write address 0) g

end Guarded

instance : Bus Guarded where
  read g := g.memory.read
  write := Guarded.write
  clear := Guarded.clear

end Z80
