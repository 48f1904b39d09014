import Z80.Text.Hex

/-!
# Listings

A listing shows, line by line, the address and the bytes that a line of source text wrote, the
line, and the characters that its data stand for.

```text
0100  3E 41        ld a,'A'  ; 'A'
```

Bytes that do not fit their column go on in rows of their own, each with its address.

## Main definitions

* `Z80.Listing.Entry` — what a listing says about one line.
* `Z80.Listing` — the entries and the number of bytes in a row, with `Z80.Listing.render`.
* `Z80.Listing.columnWidth` — the width of the column of bytes.
* `Z80.chunksOf` — a list cut into pieces of equal length, the last one excepted.

## Design

The number of bytes in a row is a size as the machine that renders counts it, in 64 bits, and the
width of the column is computed from it in the same way.  Texts have no bound on their length, nor
have the blanks that fill a column.
-/

namespace Z80

/-- The list cut into pieces of `size` elements, at least one, the last piece excepted. -/
def chunksOf {α : Type} (size : Nat) : List α → List (List α)
  | [] => []
  | x :: xs => (x :: xs.take (size - 1)) :: chunksOf size (xs.drop (size - 1))
termination_by xs => xs.length
decreasing_by
  simp only [List.length_drop, List.length_cons]
  omega

/-- What a listing says about one line of source text. -/
structure Listing.Entry where
  /-- The number of the line, from 1. -/
  line : Nat
  /-- The location of the line, if it occupies memory. -/
  address : Option UInt16
  bytes : List UInt8
  source : String
  annotation : Option String
  deriving DecidableEq, Repr

/-- The entries of a listing and the number of bytes that a row is to show. -/
structure Listing where
  width : UInt64
  entries : List Listing.Entry
  deriving DecidableEq, Repr

namespace Listing

/-- Bytes in hexadecimal with blanks between. -/
def hexBytes (bytes : List UInt8) : String :=
  " ".intercalate (bytes.map Text.hexByte)

/-- A text with blanks behind it up to a width. -/
def padded (width : Nat) (text : String) : String :=
  text ++ String.ofList (List.replicate (width - text.length) ' ')

/-- The number of bytes in a row, which is at least one. -/
def bytesPerRow (listing : Listing) : UInt64 :=
  max 1 listing.width

/-- The width of the column of bytes: two digits for each byte of a row and a blank between two.
The product wraps around if it does not fit into 64 bits. -/
def columnWidth (rowSize : UInt64) : UInt64 :=
  rowSize * 3 - 1

/-- The rows of an entry behind its first one, where `offset` bytes stand in front of them. -/
def laterRows (rowSize : Nat) (address : UInt16) : (offset : Nat) → List (List UInt8) → List String
  | _, [] => []
  | offset, bytes :: more =>
    (Text.hexWord (address + UInt16.ofNat offset) ++ "  " ++ hexBytes bytes)
      :: laterRows rowSize address (offset + rowSize) more

/-- The first row of an entry. -/
def firstRow (rowSize : UInt64) (entry : Entry) (bytes : List UInt8) : String :=
  (entry.address.map Text.hexWord).getD "    " ++ "  "
    ++ padded (columnWidth rowSize).toNat (hexBytes bytes) ++ "  " ++ entry.source
    ++ match entry.annotation with
      | some annotation => "  ; " ++ annotation
      | none => ""

/-- The rows of an entry. -/
def rows (rowSize : UInt64) (entry : Entry) : List String :=
  match chunksOf rowSize.toNat entry.bytes with
  | [] => [firstRow rowSize entry []]
  | bytes :: more =>
    firstRow rowSize entry bytes
      :: laterRows rowSize.toNat (entry.address.getD 0) rowSize.toNat more

/-- The text of a listing, each row ended by a line feed. -/
def render (listing : Listing) : String :=
  String.join ((listing.entries.flatMap (rows listing.bytesPerRow)).map (· ++ "\n"))

/-- The entry of a line. -/
def entry? (listing : Listing) (line : Nat) : Option Entry :=
  listing.entries.find? fun entry => entry.line = line

end Listing

end Z80
