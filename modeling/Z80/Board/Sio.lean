/-!
# The serial controller

Of the serial controller only its control port is watched, for the sequence that tells it the
interrupt vector.  A byte written to register 0 selects, by its low three bits, the register of
the next byte; any other register takes one byte and passes the turn back to register 0.  Register
2 holds the vector.

## Main definitions

* `Z80.Sio` — what the next byte is taken as, with `Z80.Sio.write`.
-/

namespace Z80

/-- What the serial controller takes the next byte as. -/
inductive Sio where
  /-- The byte goes to register 0 and selects a register. -/
  | pointer
  /-- The byte is the interrupt vector. -/
  | vector
  /-- The byte goes to another register. -/
  | data
  deriving DecidableEq, Repr

namespace Sio

/-- The serial controller at power-on. -/
def start : Sio := pointer

/-- Whether the next byte is the interrupt vector. -/
def isArmed : Sio → Bool
  | vector => true
  | pointer | data => false

/-- What the next byte is taken as behind a byte that selects a register. -/
def select (v : UInt8) : Sio :=
  let register := v &&& 0x07
  if register = 0 then pointer else if register = 2 then vector else data

/-- The serial controller behind a byte, and the interrupt vector if the byte is one. -/
def write : Sio → (v : UInt8) → Sio × Option UInt8
  | pointer, v => (select v, none)
  | vector, v => (pointer, some v)
  | data, _ => (pointer, none)

end Sio

end Z80
