import Z80.Board.Ports
import Z80.Board.Sio
import Z80.Text.Hex
import Z80.Word

/-!
# The board

Most ports are plain latches.  Some are reserved, and accesses to them are reported as events: a
storage device is asked for a byte or given one, the serial controller is told its interrupt
vector, and a display is written.  What is written to the storage port goes to the device and
leaves the latch alone; what is read there is what the device put into the latch.

## Main definitions

* `Z80.Board` — ports, the serial controller, and which ports are reserved.
* `Z80.Event` — what a board reports, with `Z80.Event.text`.
* `Z80.Board.input`, `Z80.Board.output` — accesses to a port.
-/

namespace Z80

/-- Which ports are reserved. -/
structure Board.Config where
  /-- The first and the last display port. -/
  display : UInt8 × UInt8 := (0x00, 0x07)
  storage : UInt8 := 0x10
  sio : UInt8 := 0x82
  deriving DecidableEq, Repr

/-- What a board reports. -/
inductive Event where
  | display (port v : UInt8)
  | storageRead (port : UInt8)
  | storageWrite (port v : UInt8)
  /-- The serial controller has a vector; with it come the address of the table entry that the
  vector selects and the word there. -/
  | sioVector (vector : UInt8) (entry handler : UInt16)
  deriving DecidableEq, Repr

/-- The wording of an event. -/
def Event.text : Event → String
  | display port v => "display port " ++ Text.hexByte port ++ "h <- " ++ Text.hexByte v ++ "h"
  | storageRead port => "storage read requested on port " ++ Text.hexByte port ++ "h"
  | storageWrite port v =>
    "storage write " ++ Text.hexByte v ++ "h requested on port " ++ Text.hexByte port ++ "h"
  | sioVector vector entry handler =>
    "SIO vector " ++ Text.hexByte vector ++ "h (table " ++ Text.hexWord entry ++ "h, handler "
      ++ Text.hexWord handler ++ "h)"

/-- Ports and devices. -/
structure Board where
  config : Board.Config
  ports : Ports
  sio : Sio

namespace Board

/-- A board at power-on. -/
def start (config : Config) : Board :=
  ⟨config, .blank, .start⟩

/-- A board with its ports and devices as at power-on. -/
def reset (board : Board) : Board :=
  start board.config

/-- Whether a port is a display port. -/
def Config.isDisplay (config : Config) (port : UInt8) : Bool :=
  config.display.1 ≤ port && port ≤ config.display.2

/-- The byte that a port gives, and what the board reports. -/
def input (board : Board) (port : UInt8) : UInt8 × Option Event :=
  (board.ports.read port,
    if port = board.config.storage then some (.storageRead port) else none)

/-- The board with a byte in the latch of a port. -/
def latch : Board → (port v : UInt8) → Board
  | ⟨config, ports, sio⟩, port, v => ⟨config, ports.write port v, sio⟩

/-- The event of an interrupt vector: the interrupt register and the vector together are the
address of a table entry. -/
def vectorEvent (i vector : UInt8) (readWord : UInt16 → UInt16) : Event :=
  let entry := wordOf vector i
  .sioVector vector entry (readWord entry)

/-- The board behind a byte that is written to a port, and what it reports, given the interrupt
register and memory. -/
def output (board : Board) (port v i : UInt8) (readWord : UInt16 → UInt16) :
    Board × Option Event :=
  if port = board.config.storage then (board, some (.storageWrite port v))
  else if port = board.config.sio then
    let (sio, vector) := board.sio.write v
    ({ board.latch port v with sio }, vector.map fun vector => vectorEvent i vector readWord)
  else if board.config.isDisplay port then (board.latch port v, some (.display port v))
  else (board.latch port v, none)

end Board

end Z80
