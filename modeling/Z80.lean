import Z80.Assembly.Assemble
import Z80.Disassembly.Disassemble
import Z80.Machine.Interrupt
import Z80.Proofs.Addresses
import Z80.Proofs.Arithmetic.Binary
import Z80.Proofs.Arithmetic.Chain
import Z80.Proofs.Arithmetic.Decimal
import Z80.Proofs.Arithmetic.Outcome
import Z80.Proofs.Assembly.Comment
import Z80.Proofs.Assembly.DataLine
import Z80.Proofs.Assembly.Emission
import Z80.Proofs.Assembly.FirstPass
import Z80.Proofs.Assembly.ForwardReference
import Z80.Proofs.Assembly.Interleaving
import Z80.Proofs.Assembly.LetterCase
import Z80.Proofs.Assembly.LineBytes
import Z80.Proofs.Assembly.ListingRows
import Z80.Proofs.Assembly.MissingName
import Z80.Proofs.Assembly.Names
import Z80.Proofs.Assembly.Overlap
import Z80.Proofs.Assembly.SecondPass
import Z80.Proofs.Assembly.Space
import Z80.Proofs.Assembly.Threads
import Z80.Proofs.Assembly.TwoPass
import Z80.Proofs.Board.ControlStream
import Z80.Proofs.Catalog.Compared
import Z80.Proofs.Catalog.DecodeBack
import Z80.Proofs.Catalog.Displacement
import Z80.Proofs.Catalog.Encoding
import Z80.Proofs.Catalog.Relocation
import Z80.Proofs.Catalog.Roles
import Z80.Proofs.Catalog.Unambiguous
import Z80.Proofs.Disassembly.Buffer
import Z80.Proofs.Disassembly.Coverage
import Z80.Proofs.Disassembly.Format
import Z80.Proofs.Disassembly.InPlace
import Z80.Proofs.Disassembly.Labels
import Z80.Proofs.Disassembly.Lines
import Z80.Proofs.Disassembly.Operands
import Z80.Proofs.Disassembly.Reassembly
import Z80.Proofs.Disassembly.Source
import Z80.Proofs.Disassembly.Spans
import Z80.Proofs.Disassembly.Termination
import Z80.Proofs.Disassembly.Trace
import Z80.Proofs.Disassembly.Traversal
import Z80.Proofs.Expr.Agreement
import Z80.Proofs.Expr.Compact
import Z80.Proofs.Expr.Derivation
import Z80.Proofs.Expr.Extension
import Z80.Proofs.Expr.Literal
import Z80.Proofs.Expr.Mention
import Z80.Proofs.Expr.Simple
import Z80.Proofs.Expr.Spelling
import Z80.Proofs.Machine.BlockCopy
import Z80.Proofs.Machine.BlockSearch
import Z80.Proofs.Machine.BlockTransfer
import Z80.Proofs.Machine.ByteOperation
import Z80.Proofs.Machine.ControlFlow
import Z80.Proofs.Machine.Frame
import Z80.Proofs.Machine.IndexForm
import Z80.Proofs.Machine.Interruption
import Z80.Proofs.Machine.Load
import Z80.Proofs.Machine.PortAccess
import Z80.Proofs.Machine.PortHistory
import Z80.Proofs.Machine.Refusal
import Z80.Proofs.Machine.Rounds
import Z80.Proofs.Machine.Run
import Z80.Proofs.Machine.Stack
import Z80.Proofs.Machine.Transfer
import Z80.Proofs.Source.Operands
import Z80.Proofs.Source.Statement
