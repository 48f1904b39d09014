import Z80.Assembly.Listing
import Z80.Disassembly.Trace
import Z80.Text.Ascii

/-!
# Disassemblies

The lines of a disassembly cover a buffer from its first byte to its last: the instructions that
were traced, and the bytes between them as data.  Data lines end where an instruction or a label
stands.  A label that stands on no line is defined as a constant.

## Main definitions

* `Z80.Disassembly` — the lines and constants of a disassembly, with `Z80.Disassembly.source` and
  `Z80.Disassembly.report`.
* `Z80.disassemble` — the disassembly of bytes.
-/

namespace Z80

/-- One line of a disassembly. -/
structure Disassembly.Line where
  address : UInt16
  bytes : List UInt8
  label : Option String
  text : String
  /-- The characters that data stand for. -/
  comment : Option String
  isData : Bool
  deriving DecidableEq, Repr

/-- A program as lines of source text. -/
structure Disassembly where
  origin : UInt16
  lines : List Disassembly.Line
  /-- The labels that stand on no line, with their addresses in ascending order. -/
  constants : List (String × UInt16)
  /-- The addresses of paths, in ascending order. -/
  paths : List UInt16
  deriving DecidableEq, Repr

/-- How a program is disassembled. -/
structure Disassembly.Options where
  /-- The address of the first byte. -/
  base : UInt16 := 0
  /-- Where control enters the program; at its first byte if nowhere else. -/
  entries : List UInt16 := []
  /-- Whether targets are written as labels. -/
  useLabels : Bool := true
  /-- The number of bytes in a line of data. -/
  dataWidth : Nat := 8
  deriving DecidableEq, Repr

namespace Disassembly

/-- Where restarts and the non-maskable interrupt enter a program. -/
def vectors : List UInt16 :=
  [0x0000, 0x0008, 0x0010, 0x0018, 0x0020, 0x0028, 0x0030, 0x0038, 0x0066]

/-- The addresses at which paths start: the entries, and the vectors inside the buffer. -/
def roots (options : Options) (buffer : Buffer) : List UInt16 :=
  (if options.entries.isEmpty then [options.base] else options.entries)
    ++ vectors.filter buffer.contains

/-- The labels that lines show. -/
def labelAt (useLabels : Bool) (trace : Trace) (address : UInt16) : Option String :=
  if useLabels then trace.labels.find? address else none

/-- Whether a line of data ends in front of an address. -/
def endsData (useLabels : Bool) (trace : Trace) (address : UInt16) : Bool :=
  match trace.marks.get address with
  | .start _ _ => true
  | _ => (labelAt useLabels trace address).isSome

/-- The number of bytes, up to `more`, from an address on that go on a line of data. -/
def dataLength (useLabels : Bool) (trace : Trace) (address : UInt16) : (more : Nat) → Nat
  | 0 => 0
  | more + 1 =>
    if endsData useLabels trace address then 0
    else dataLength useLabels trace (address + 1) more + 1

/-- The line of data with the given bytes. -/
def dataLine (label : Option String) (address : UInt16) (bytes : List UInt8) : Line :=
  ⟨address, bytes, label, dataText bytes, some (Text.asciiText bytes), true⟩

/-- The line at an address in front of the `left` last bytes of a buffer. -/
def lineAt (options : Options) (buffer : Buffer) (trace : Trace) (address : UInt16) (left : Nat) :
    Line :=
  let label := labelAt options.useLabels trace address
  match trace.marks.get address with
  | .start i text => ⟨address, i.bytes, label, text, none, false⟩
  | _ =>
    let more := min (options.dataWidth - 1) (left - 1)
    let count := dataLength options.useLabels trace (address + 1) more + 1
    dataLine label address (readBytes buffer.read address count)

/-- The lines of the last `left` bytes of a buffer, in at most as many rounds. -/
def linesFrom (options : Options) (buffer : Buffer) (trace : Trace) :
    (rounds : Nat) → UInt16 → (left : Nat) → List Line
  | _, _, 0 => []
  | 0, _, _ => []
  | rounds + 1, address, left =>
    let line := lineAt options buffer trace address left
    let count := line.bytes.length
    line :: linesFrom options buffer trace rounds (address + UInt16.ofNat count) (left - count)

/-- The labels of addresses at which no line stands. -/
def constantsOf (useLabels : Bool) (trace : Trace) (lines : List Line) :
    List (String × UInt16) :=
  let onLine := lines.foldl (fun m line => m.set line.address true) (AddressMap.fill false)
  allAddresses.filterMap fun address =>
    if onLine.get address then none
    else (labelAt useLabels trace address).map fun name => (name, address)

/-- The disassembly of a buffer. -/
def ofBuffer (options : Options) (buffer : Buffer) : Disassembly :=
  let trace := Trace.run options.useLabels buffer (roots options buffer)
  let lines := linesFrom options buffer trace buffer.size buffer.base buffer.size
  ⟨buffer.base, lines, constantsOf options.useLabels trace lines,
    allAddresses.filter trace.paths.get⟩

/-- The lines that hold instructions. -/
def instructions (d : Disassembly) : List Line :=
  d.lines.filter fun line => !line.isData

/-- A comment as it follows a statement. -/
def commentText : Option String → String
  | some comment => "  ; " ++ comment
  | none => ""

/-- The definition of a constant. -/
def constantText (constant : String × UInt16) : String :=
  constant.1 ++ " equ " ++ Text.wordNumeral constant.2

/-- A line as source text. -/
def Line.source (line : Line) : String :=
  (match line.label with
    | some label => label ++ ":\n"
    | none => "")
    ++ "        " ++ line.text ++ commentText line.comment ++ "\n"

/-- The source text of a disassembly, which assembles to the program again. -/
def source (d : Disassembly) : String :=
  String.join (d.constants.map fun c => constantText c ++ "\n")
    ++ (if d.constants.isEmpty then "" else "\n")
    ++ "        org " ++ Text.wordNumeral d.origin ++ "\n"
    ++ String.join (d.lines.map Line.source)

/-- The columns of an address and of bytes. -/
def columns (address bytes : String) : String :=
  Listing.padded 4 address ++ "  " ++ Listing.padded 11 bytes ++ "  "

/-- A line with its address and bytes in front. -/
def Line.report (line : Line) : String :=
  (match line.label with
    | some label => columns (Text.hexWord line.address) "" ++ label ++ ":\n"
    | none => "")
    ++ columns (Text.hexWord line.address) (Listing.hexBytes line.bytes)
    ++ "    " ++ line.text ++ commentText line.comment ++ "\n"

/-- The text of a disassembly with addresses and bytes in front of its lines. -/
def report (d : Disassembly) : String :=
  String.join (d.constants.map fun c => columns "" "" ++ constantText c ++ "\n")
    ++ String.join (d.lines.map Line.report)

end Disassembly

/-- The disassembly of the first 65536 of the given bytes. -/
def disassemble (options : Disassembly.Options) (bytes : List UInt8) : Disassembly :=
  .ofBuffer options (.ofList options.base bytes)

end Z80
