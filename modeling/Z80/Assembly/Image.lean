import Z80.Assembly.Encode
import Z80.Assembly.Layout
import Z80.Assembly.Listing
import Z80.Assembly.OriginMap
import Z80.Text.Ascii

/-!
# Writing the image

With every name known, the prepared lines are gone through once more and their bytes are written
to memory, each at the location of its line.  No byte is written twice.

## Main definitions

* `Z80.Emission` — the bytes of a statement, and what a listing shows of them.
* `Z80.Statement.emission?` — the bytes of a statement, if it is one that writes any.
* `Z80.Image` — memory, origins and listing up to a line.
* `Z80.Image.writeLine` — the image with the bytes of one more line.
-/

namespace Z80

open Source (Statement)

/-- The bytes that a statement writes. -/
structure Emission where
  bytes : List UInt8
  /-- Whether a listing shows the bytes. -/
  isListed : Bool
  /-- The characters that data stand for, in apostrophes. -/
  annotation : Option String
  deriving DecidableEq, Repr

/-- A text in apostrophes. -/
def annotationOf (text : String) : String :=
  "'" ++ text ++ "'"

/-- The codes of the characters of a string, which must be ASCII characters. -/
def stringBytes : List Char → Except Fault (List UInt8)
  | [] => .ok []
  | c :: cs =>
    if c.toNat < 128 then (stringBytes cs).map (UInt8.ofNat c.toNat :: ·)
    else .error (.nonAscii c)

/-- The bytes of an operand of a bytes directive. -/
def operandBytes (scope : Expr.Scope) (operand : String) : Except Fault (List UInt8) :=
  match Source.stringLiteral? operand with
  | some chars => stringBytes chars
  | none => (liftExpr (Expr.evaluateByte scope operand)).map ([·])

/-- The bytes of the operands of a bytes directive. -/
def dataBytes (scope : Expr.Scope) : List String → Except Fault (List UInt8)
  | [] => .ok []
  | operand :: more => do
    let bytes ← operandBytes scope operand
    let rest ← dataBytes scope more
    return bytes ++ rest

/-- The bytes of the operands of a words directive, low bytes first. -/
def dataWords (scope : Expr.Scope) : List String → Except Fault (List UInt8)
  | [] => .ok []
  | operand :: more => do
    let word ← liftExpr (Expr.evaluateWord scope operand)
    let rest ← dataWords scope more
    return lowByte word :: highByte word :: rest

/-- What a listing shows beside an instruction: the character of the byte that it loads or
compares, if that is one that can be shown. -/
def immediateAnnotation (mnemonic : Mnemonic) (immediate : Option UInt8) : Option String :=
  if mnemonic = .ld || mnemonic = .cp then
    (immediate.filter Text.isPrintable).map fun b =>
      annotationOf (String.singleton (Text.charOf b))
  else none

/-- The bytes of a source instruction. -/
def instructionEmission (scope : Expr.Scope) (word : String) (operands : List Operand) :
    Except Fault Emission :=
  match resolve scope word operands with
  | .error error => .error (.instruction error)
  | .ok resolved => do
    let encoding ← resolved.encode scope operands
    let mnemonic := resolved.descriptor.template.mnemonic
    return ⟨encoding.bytes, true, immediateAnnotation mnemonic encoding.immediate⟩

/-- The bytes that a statement writes at the location of a scope; some statements write none. -/
def Source.Statement.emission? (scope : Expr.Scope) : Statement → Except Fault (Option Emission)
  | .empty | .stop | .segment _ | .origin _ => .ok none
  | .bytes operands => do
    let bytes ← dataBytes scope operands
    return some ⟨bytes, true, some (annotationOf (Text.asciiText bytes))⟩
  | .words operands => do
    let bytes ← dataWords scope operands
    return some ⟨bytes, true, none⟩
  | .space text => do
    let size ← liftExpr (Expr.evaluateWord scope text)
    return some ⟨List.replicate size.toNat 0, false, none⟩
  | .instruction word texts => (instructionEmission scope word (operandsOf texts)).map some

/-- What the lines up to some place have written. -/
structure Image where
  segments : Segments
  memory : Memory
  origins : OriginMap
  entries : Array Listing.Entry

namespace Image

/-- The image of no lines. -/
def blank (active : Segment) : Image :=
  ⟨.start active, .blank, .blank, #[]⟩

/-- Memory and origins with the bytes of a line from an address on. -/
def claim (line : Nat) (memory : Memory) (origins : OriginMap) (address : UInt16) :
    List UInt8 → Except Fault (Memory × OriginMap)
  | [] => .ok (memory, origins)
  | b :: bytes =>
    match origins.claim address line with
    | .error previous => .error (.duplicateCode address previous)
    | .ok origins => claim line (memory.write address b) origins (address + 1) bytes

/-- The image with the bytes of a line at its location, which moves on behind them. -/
def emit : (image : Image) → (line : Nat) → List UInt8 → Except Fault Image
  | ⟨segments, memory, origins, entries⟩, line, bytes =>
    match claim line memory origins segments.location bytes with
    | .error fault => .error fault
    | .ok (memory, origins) =>
      .ok ⟨segments.advance (UInt16.ofNat bytes.length), memory, origins, entries⟩

/-- The image with the counters where a statement that writes nothing puts them, and the address
that a listing shows for it. -/
def direct (image : Image) (scope : Expr.Scope) :
    Statement → Except Fault (Image × Option UInt16)
  | .segment target => .ok ({ image with segments := image.segments.switch target }, none)
  | .origin text => do
    let address ← liftExpr (Expr.evaluateWord scope text)
    return ({ image with segments := image.segments.moveTo address }, some address)
  | _ => .ok (image, none)

/-- The image with one more entry of the listing. -/
def list (image : Image) (entry : Listing.Entry) : Image :=
  { image with entries := image.entries.push entry }

/-- The image with the bytes of one more line. -/
def writeLine (symbols : SymbolTable) (image : Image) (line : PreparedLine) :
    Except Fault Image := do
  let location := image.segments.location
  let scope := symbols.scope location
  match ← line.statement.emission? scope with
  | none =>
    let (image, address) ← image.direct scope line.statement
    return image.list ⟨line.number, address, [], line.source, none⟩
  | some emission =>
    let image ← image.emit line.number emission.bytes
    let shown := if emission.isListed then emission.bytes else []
    return image.list ⟨line.number, some location, shown, line.source, emission.annotation⟩

/-- The image with the bytes of more lines. -/
def writeLines (symbols : SymbolTable) (image : Image) :
    List PreparedLine → Except Failure Image
  | [] => .ok image
  | line :: more =>
    match image.writeLine symbols line with
    | .error fault => .error ⟨line.number, fault⟩
    | .ok image => image.writeLines symbols more

/-- The image of the lines of a layout, under all of its names. -/
def ofLayout (active : Segment) (layout : Layout) : Except Failure Image :=
  (blank active).writeLines layout.symbols layout.lines.toList

end Image

end Z80
