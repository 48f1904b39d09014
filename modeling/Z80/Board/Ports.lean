/-!
# Ports

Each of the 256 ports holds the byte that was last written to it.

## Main definitions

* `Z80.Ports` — a byte per port, with `Z80.Ports.read` and `Z80.Ports.write`.

## Main results

* `Z80.Ports.read_write` — a byte is read where it was last written, and nowhere else.
-/

namespace Z80

/-- The number of ports. -/
abbrev portCount : Nat := UInt8.size

/-- All ports in ascending order. -/
def allPorts : List UInt8 :=
  (List.range portCount).map UInt8.ofNat

/-- A byte for each port. -/
structure Ports where
  latches : Vector UInt8 portCount
  deriving DecidableEq

namespace Ports

/-- Zero at every port. -/
def blank : Ports :=
  ⟨Vector.replicate portCount 0⟩

/-- The byte of a port. -/
def read (ports : Ports) (port : UInt8) : UInt8 :=
  ports.latches[port.toFin]

/-- The ports with another byte for one of them. -/
def write (ports : Ports) (port v : UInt8) : Ports :=
  ⟨ports.latches.set port.toNat v port.toNat_lt⟩

/-- The ports with zero written to each. -/
def clear (ports : Ports) : Ports :=
  allPorts.foldl (fun ports port => ports.write port 0) ports

/-- The number of ports that hold no zero. -/
def nonzeroCount (ports : Ports) : Nat :=
  allPorts.countP fun port => ports.read port != 0

@[simp]
theorem read_blank (port : UInt8) : blank.read port = 0 := by
  simp [blank, read]

/-- A byte is read where it was last written, and nowhere else. -/
theorem read_write (ports : Ports) (p q v : UInt8) :
    (ports.write p v).read q = if p = q then v else ports.read q := by
  simp [read, write, Fin.getElem_fin, Vector.getElem_set, UInt8.toNat_inj]

end Ports

end Z80
