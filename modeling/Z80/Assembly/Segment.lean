import Z80.Text.Fold

/-!
# Segments

Source text is laid out in three segments, each with a location counter of its own.  Leaving a
segment keeps its counter, so code and data may take turns in the source and still land apart.

## Main definitions

* `Z80.Segment` — the three segments and their directives.
* `Z80.Segments` — the location counters and which of them is active.
-/

namespace Z80

/-- The segments of an assembly. -/
inductive Segment where
  | absolute | code | data
  deriving DecidableEq, Repr

namespace Segment

/-- The directive that makes a segment active. -/
def directive : Segment → String
  | absolute => "aseg"
  | code => "cseg"
  | data => "dseg"

/-- All segments. -/
def all : List Segment := [absolute, code, data]

/-- The segment with a directive, in any case. -/
def ofDirective? (word : String) : Option Segment :=
  all.find? fun segment => segment.directive == Text.lower word

end Segment

/-- The location counters of the segments, one of them active. -/
structure Segments where
  active : Segment
  absolute : UInt16
  code : UInt16
  data : UInt16
  deriving DecidableEq, Repr

namespace Segments

/-- All counters at zero. -/
def start (active : Segment) : Segments :=
  ⟨active, 0, 0, 0⟩

/-- The location counter of a segment. -/
def counter (s : Segments) : Segment → UInt16
  | .absolute => s.absolute
  | .code => s.code
  | .data => s.data

/-- The active location counter. -/
def location (s : Segments) : UInt16 :=
  s.counter s.active

/-- The counters with another segment active. -/
def switch (s : Segments) (segment : Segment) : Segments :=
  { s with active := segment }

/-- The counters with the active one at an address. -/
def moveTo (s : Segments) (address : UInt16) : Segments :=
  match s.active with
  | .absolute => { s with absolute := address }
  | .code => { s with code := address }
  | .data => { s with data := address }

/-- The counters with the active one moved on, wrapping past the last address. -/
def advance (s : Segments) (count : UInt16) : Segments :=
  s.moveTo (s.location + count)

/-- The active counter is where it was moved to. -/
theorem location_moveTo (s : Segments) (address : UInt16) :
    (s.moveTo address).location = address := by
  cases h : s.active <;> simp [moveTo, location, counter, h]

end Segments

end Z80
