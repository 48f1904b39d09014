/-!
# Index registers

The two index registers take the place of `hl` behind a prefix byte of their own.

## Main definitions

* `Z80.Index` — `ix` and `iy`, with `Z80.Index.name` and `Z80.Index.prefixByte`.
-/

namespace Z80

/-- The index registers. -/
inductive Index where
  | ix | iy
  deriving DecidableEq, Repr

namespace Index

/-- The name of an index register. -/
def name : Index → String
  | ix => "ix"
  | iy => "iy"

/-- The byte in front of the instructions of an index register. -/
def prefixByte : Index → UInt8
  | ix => 0xDD
  | iy => 0xFD

end Index

end Z80
