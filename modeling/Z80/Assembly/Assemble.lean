import Z80.Assembly.Image

/-!
# Assemblies

Source text is assembled in two passes: the first lays the text out and so gives every name its
value, the second writes the bytes.

## Main definitions

* `Z80.Assembly` — memory, origins, names and listing of a text.
* `Z80.assemble` — the assembly of a text, or its first failure.
-/

namespace Z80

/-- What a text is assembled to. -/
structure Assembly where
  memory : Memory
  origins : OriginMap
  symbols : SymbolTable
  listing : Listing
  /-- The address of the first origin. -/
  start? : Option UInt16

/-- How a text is assembled. -/
structure Assembly.Options where
  /-- The number of bytes in a row of the listing. -/
  listingWidth : UInt64 := 4
  /-- The segment that is active at the start of the text. -/
  segment : Segment := .code
  deriving DecidableEq, Repr

/-- The assembly of a text, or the first failure. -/
def assemble (options : Assembly.Options) (source : String) : Except Failure Assembly :=
  match Layout.ofSource options.segment source with
  | .error failure => .error failure
  | .ok layout =>
    match Image.ofLayout options.segment layout with
    | .error failure => .error failure
    | .ok image =>
      .ok ⟨image.memory, image.origins, layout.symbols,
        ⟨options.listingWidth, image.entries.toList⟩, layout.start?⟩

namespace Assembly

/-- The bytes at the addresses from `first` to `last`, both included. -/
def bytesIn (a : Assembly) (first last : UInt16) : List UInt8 :=
  a.memory.slice first (last.toNat + 1 - first.toNat)

/-- The lowest address that was written, and the bytes from there to the highest. -/
def image (a : Assembly) : UInt16 × List UInt8 :=
  match a.origins.range? with
  | some (low, high) => (low, a.bytesIn low high)
  | none => (0, [])

end Assembly

end Z80
