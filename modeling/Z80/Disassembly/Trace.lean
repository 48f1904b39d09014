import Z80.Disassembly.Format
import Z80.Disassembly.Labels

/-!
# Tracing paths of control

Instructions are found by following control from the entries of a program.  A path starts at an
address that waits to be walked; it goes from instruction to instruction, over unconditional jumps
to their targets, and ends where control leaves, where nothing decodes, or where it meets bytes of
an instruction found before.  Targets of other jumps and of calls wait for paths of their own.  Of
the waiting addresses the lowest is walked next.

## Main definitions

* `Z80.Mark` — what is known of the byte at an address.
* `Z80.Trace` — the instructions found, the addresses of paths, and those that wait.
* `Z80.Trace.visit` — one instruction of a path; `Z80.Trace.walk` — a path.
* `Z80.Trace.run` — all paths.

## Design

Every round of `run` walks an address that was never walked, and every round of `walk` but the
last claims a byte that was free.  So as many rounds as there are addresses, and one more than
there are bytes, are never used up.
-/

namespace Z80

/-- What is known of the byte at an address. -/
inductive Mark where
  | free
  /-- An instruction starts there, with the given statement. -/
  | start (instruction : Instruction) (text : String)
  /-- The byte belongs to an instruction in front of it. -/
  | inside

/-- Whether no instruction has a byte. -/
def Mark.isFree : Mark → Bool
  | free => true
  | start _ _ | inside => false

/-- How far the paths of a program have been followed. -/
structure Trace where
  marks : AddressMap Mark
  /-- The addresses at which a path starts or to which one jumped. -/
  paths : AddressMap Bool
  /-- The addresses of paths that are still to be walked, in ascending order. -/
  waiting : List UInt16
  labels : Labels

/-- An ascending list with one more address. -/
def insertAscending (address : UInt16) : List UInt16 → List UInt16
  | [] => [address]
  | first :: more =>
    if address < first then address :: first :: more
    else first :: insertAscending address more

namespace Trace

/-- The trace of nothing. -/
def empty : Trace :=
  ⟨.fill .free, .fill false, [], .empty⟩

/-- The trace with an address that waits to be walked, unless it was met as a path before. -/
def queue (trace : Trace) (address : UInt16) : Trace :=
  if trace.paths.get address then trace
  else
    match trace with
    | ⟨marks, paths, waiting, labels⟩ =>
      ⟨marks, paths.set address true, insertAscending address waiting, labels⟩

/-- The trace with an address as that of a path that is being walked. -/
def enter : Trace → UInt16 → Trace
  | ⟨marks, paths, waiting, labels⟩, address =>
    ⟨marks, paths.set address true, waiting, labels⟩

/-- Whether none of the `count` bytes from an address on belongs to an instruction. -/
def isFree (trace : Trace) (address : UInt16) : (count : Nat) → Bool
  | 0 => true
  | count + 1 => (trace.marks.get address).isFree && trace.isFree (address + 1) count

/-- The trace with a label for the target of an instruction. -/
def label : Trace → (target : UInt16) → Category → Trace
  | ⟨marks, paths, waiting, labels⟩, target, category =>
    let kind : Labels.Kind :=
      match category with
      | .conditionalCall | .unconditionalCall => .subroutine
      | _ => .jump
    ⟨marks, paths, waiting, labels.assign target kind⟩

/-- The trace in which an instruction with a statement has its bytes. -/
def claim : Trace → Instruction → (text : String) → Trace
  | ⟨marks, paths, waiting, labels⟩, i, text =>
    ⟨(marks.setRange i.address .inside i.size).set i.address (.start i text), paths, waiting,
      labels⟩

/-- The statement of an instruction, with the labels known so far if they are wanted. -/
def textOf (trace : Trace) (useLabels : Bool) (i : Instruction) : String :=
  i.text fun address => if useLabels then trace.labels.find? address else none

/-- The trace behind an instruction that is found, and where its path goes on. -/
def follow (useLabels : Bool) (trace : Trace) (i : Instruction) : Trace × Option UInt16 :=
  match i.category, i.target? with
  | .unconditionalJump, some target =>
    let trace := trace.label target i.category
    let text := trace.textOf useLabels i
    ((trace.claim i text).enter target, some target)
  | .unconditionalJump, none | .unconditionalReturn, _ | .unconditionalRestart, _ | .halt, _ =>
    let text := trace.textOf useLabels i
    (trace.claim i text, none)
  | category, some target =>
    let trace := (trace.label target category).queue target
    let text := trace.textOf useLabels i
    (trace.claim i text, some i.next)
  | _, none =>
    let text := trace.textOf useLabels i
    (trace.claim i text, some i.next)

/-- The trace behind the instruction at an address of a path, and where the path goes on, if it
does. -/
def visit (useLabels : Bool) (buffer : Buffer) (trace : Trace) (address : UInt16) :
    Trace × Option UInt16 :=
  match buffer.decode? address with
  | none => (trace, none)
  | some i => if trace.isFree address i.size then trace.follow useLabels i else (trace, none)

/-- The trace behind a path that goes on at an address. -/
def walk (useLabels : Bool) (buffer : Buffer) : (rounds : Nat) → Trace → UInt16 → Trace
  | 0, trace, _ => trace
  | rounds + 1, trace, address =>
    match trace.visit useLabels buffer address with
    | (trace, some next) => walk useLabels buffer rounds trace next
    | (trace, none) => trace

/-- The trace without the first of the waiting addresses, and that address. -/
def next? : Trace → Option (Trace × UInt16)
  | ⟨_, _, [], _⟩ => none
  | ⟨marks, paths, first :: waiting, labels⟩ => some (⟨marks, paths, waiting, labels⟩, first)

/-- The trace behind all paths. -/
def runFor (useLabels : Bool) (buffer : Buffer) : (rounds : Nat) → Trace → Trace
  | 0, trace => trace
  | rounds + 1, trace =>
    match trace.next? with
    | none => trace
    | some (trace, address) =>
      runFor useLabels buffer rounds (trace.walk useLabels buffer (buffer.size + 1) address)

/-- The trace behind all paths from the addresses of the roots. -/
def run (useLabels : Bool) (buffer : Buffer) (roots : List UInt16) : Trace :=
  runFor useLabels buffer addressCount (roots.foldl queue empty)

end Trace

end Z80
