import Z80.Proofs.Assembly.Overlap
import Z80.Proofs.Assembly.TwoPass

/-!
# The bytes of one line

Both passes come by a line of an assembled text at the same location.  The first moves on by as many
bytes as the second writes there, and when all lines are written these bytes are still in memory and
belong to the line.

## Main definitions

* `Z80.Layout.ComesBy` — the first pass in front of a line and behind it.
* `Z80.Assembly.Holds` — an assembly with the bytes of a line at an address.

## Main results

* `Z80.Assembly.holds_of_writeLines` — what a line has written is held in the end.
* `Z80.Assembly.exists_comesBy` — each line of an assembled text is passed and held.
-/

namespace Z80

/-- The first pass reads a text with the line `line` in the place `k`, counted from 0, and is at
the layout `before` in front of it and at `after` behind it. -/
structure Layout.ComesBy (active : Segment) (source : String) (k : Nat) (line : PreparedLine)
    (before after : Layout) : Prop where
  front : (blank active).readLines 1 ((Text.lines source).take k) = .ok before
  reads : ∃ text named, (Text.lines source)[k]? = some text ∧
    before.Reads (k + 1) text named line after

/-- An assembly with some bytes from an address on as those of a line, the place of which in the
text is `k`, counted from 0. -/
structure Assembly.Holds (assembly : Assembly) (k : Nat) (line : PreparedLine) (address : UInt16)
    (bytes : List UInt8) : Prop where
  /-- The line is listed with its address, and unless it is space with its bytes. -/
  entry : ∃ entry, assembly.listing.entries[k]? = some entry ∧ entry.line = line.number ∧
    entry.address = some address ∧ entry.bytes = if line.statement.isSpace then [] else bytes
  /-- The bytes are in memory. -/
  read : readBytes assembly.memory.read address bytes.length = bytes
  /-- Their addresses are those of the line, and no others are. -/
  lineAt?_iff : ∀ a, assembly.origins.lineAt? a = some line.number ↔
    a ∈ addressesFrom address bytes.length
  /-- So the line has as many addresses as bytes. -/
  length_eq : (assembly.origins.addressesOf line.number).length = bytes.length

/-! ### The first pass -/

namespace Layout.Run

variable {before last : Layout} {number : Nat} {texts : List String} {lines : List PreparedLine}

/-- Each line is read behind those in front of it, and all names are known in the end. -/
lemma exists_reads (h : Run before number texts lines last) {k : Nat} {line : PreparedLine}
    (hline : lines[k]? = some line) :
    ∃ text front named behind, texts[k]? = some text ∧
      Run before number (texts.take k) (lines.take k) front ∧
      front.Reads (number + k) text named line behind ∧ last.symbols.Extends behind.symbols := by
  induction h generalizing k with
  | nil => simp at hline
  | @stop before named after number text more first hfirst hstop =>
    cases k with
    | zero =>
      obtain rfl : first = line := by simpa using hline
      exact ⟨text, before, named, after, rfl, .nil, hfirst, .refl _⟩
    | succ k => simp at hline
  | @cons before named after last number text more first lines hfirst hstop hmore ih =>
    cases k with
    | zero =>
      obtain rfl : first = line := by simpa using hline
      exact ⟨text, before, named, after, rfl, .nil, hfirst, hmore.symbols_extends⟩
    | succ k =>
      obtain ⟨text', front, named', behind, htext, hfront, hreads, hlarger⟩ :=
        ih (by simpa using hline)
      refine ⟨text', front, named', behind, by simpa using htext, .cons hfirst hstop hfront, ?_,
        hlarger⟩
      rwa [Nat.add_assoc, Nat.add_comm 1] at hreads

end Layout.Run

/-! ### The second pass -/

namespace Image

variable {image next last : Image} {symbols : SymbolTable} {line : PreparedLine}
  {front back : List PreparedLine}

/-- **The bytes of a line are its own when all lines are written.**  The lines behind it keep its
bytes, and neither they nor those in front of it have its number. -/
theorem lineAt?_writeLines (hblank : ∀ a, image.origins.lineAt? a = none) {before : Image}
    (hfront : image.writeLines symbols front = .ok before)
    (hline : before.writeLine symbols line = .ok next)
    (hback : next.writeLines symbols back = .ok last)
    (hnumbers : ((front ++ line :: back).map PreparedLine.number).Nodup) {emission : Emission}
    (hemission : line.statement.emission? (symbols.scope before.segments.location) =
      .ok (some emission)) (a : UInt16) :
    last.origins.lineAt? a = some line.number ↔
      a ∈ addressesFrom before.segments.location emission.bytes.length := by
  obtain ⟨-, -, howner, -⟩ := bytes_writeLine hline hemission
  rw [List.map_append, List.map_cons, List.nodup_append, List.nodup_cons] at hnumbers
  obtain ⟨-, ⟨hlater, -⟩, hearlier⟩ := hnumbers
  constructor
  · intro hlast
    by_contra hmem
    rcases owner_writeLines hback hlast with hnext | hnumber
    · rw [howner, if_neg hmem] at hnext
      rcases owner_writeLines hfront hnext with hnone | hnumber
      · simp [hblank] at hnone
      · exact hearlier _ hnumber _ List.mem_cons_self rfl
    · exact hlater hnumber
  · intro hmem
    exact (keeps_writeLines hback).lineAt? (by rw [howner, if_pos hmem])

end Image

/-- **What a line has written is held when all lines are written.** -/
theorem Assembly.holds_of_writeLines {active : Segment} {symbols : SymbolTable}
    {line : PreparedLine} {front back : List PreparedLine} {reached next last : Image}
    (hfront : (Image.blank active).writeLines symbols front = .ok reached)
    (hline : reached.writeLine symbols line = .ok next)
    (hback : next.writeLines symbols back = .ok last)
    (hnumbers : ((front ++ line :: back).map PreparedLine.number).Nodup) {emission : Emission}
    (hemission : line.statement.emission? (symbols.scope reached.segments.location) =
      .ok (some emission)) (width : UInt64) (start? : Option UInt16) :
    Holds ⟨last.memory, last.origins, symbols, ⟨width, last.entries.toList⟩, start?⟩ front.length
      line reached.segments.location emission.bytes := by
  obtain ⟨hnodup, hread, hwrites, hentry⟩ := Image.bytes_writeLine hline hemission
  have hkeeps := Image.keeps_writeLines hback
  have howner := Image.lineAt?_writeLines (fun a => OriginMap.lineAt?_blank a) hfront hline hback
    hnumbers hemission
  have hsize : reached.entries.size = front.length := by
    rw [Image.size_entries_writeLines hfront]
    exact Nat.zero_add _
  rw [hsize] at hentry
  refine ⟨⟨_, Array.getElem?_toList.trans (hkeeps.entry hentry), rfl, rfl, ?_⟩, ?_, howner, ?_⟩
  · rw [isListed_eq hemission]
    cases line.statement.isSpace <;> rfl
  · refine (readBytes_congr fun a ha => ?_).trans hread
    exact hkeeps.read (n := line.number) (by rw [hwrites, if_pos ha])
  · rw [OriginMap.length_addressesOf hnodup howner, length_addressesFrom]

namespace Assembly

variable {options : Assembly.Options} {source : String} {assembly : Assembly} {layout : Layout}

/-- **Each line of an assembled text is passed and held.**  The second pass understands it where the
first has placed it, and if it writes bytes then the first pass has counted them, and they are
held.

**Proof sketch.** The second pass is followed in three portions: up to the line, the line itself,
and the lines behind it. -/
theorem exists_comesBy (h : assemble options source = .ok assembly)
    (hlayout : Layout.ofSource options.segment source = .ok layout) {k : Nat}
    {line : PreparedLine} (hline : layout.lines[k]? = some line) :
    ∃ before after emission?, Layout.ComesBy options.segment source k line before after ∧
      line.statement.emission? (assembly.symbols.scope before.segments.location) = .ok emission? ∧
      ∀ emission ∈ emission?,
        assembly.Holds k line before.segments.location emission.bytes ∧
        after.segments = before.segments.advance (UInt16.ofNat emission.bytes.length) := by
  obtain ⟨_, last, hlayout', himage, rfl⟩ := assemble_eq_ok_iff.1 h
  obtain rfl := Except.ok.inj (hlayout.symm.trans hlayout')
  obtain ⟨lines, hrun⟩ := Layout.readLines_eq_ok_iff.1 hlayout
  have hlines : layout.lines.toList = lines := by simpa [Layout.blank] using hrun.lines_after
  rw [← Array.getElem?_toList, hlines] at hline
  obtain ⟨hlt, hget⟩ := List.getElem?_eq_some_iff.1 hline
  have hsplit : lines = lines.take k ++ line :: lines.drop (k + 1) := by
    rw [← hget, List.getElem_cons_drop, List.take_append_drop]
  rw [Image.ofLayout, hlines, hsplit, Image.writeLines_append_eq_ok_iff] at himage
  obtain ⟨reached, hreached, himage⟩ := himage
  obtain ⟨next, hnext, hlast⟩ := Image.writeLines_cons_eq_ok_iff.1 himage
  obtain ⟨text, before, named, after, htext, hfront, hreads, hlarger⟩ := hrun.exists_reads hline
  rw [Nat.add_comm 1 k] at hreads
  -- the second pass is at the line where the first one was
  have hsegments : reached.segments = before.segments := by
    obtain ⟨_, front, _, _, -, hfront', -, hagrees⟩ :=
      hrun.agreesWith (by simp [Layout.blank, SymbolTable.empty, SymbolTable.symbols]) rfl hline
        hreached
    obtain rfl := Except.ok.inj ((Layout.readLines_eq_ok_iff.2 ⟨_, hfront⟩).symm.trans hfront')
    exact hagrees.segments_eq
  have hbehind : next.segments = after.segments := by
    rw [hreads.symbols_after] at hlarger
    exact Image.segments_writeLine hreads.placed hlarger
      (hsegments.trans hreads.segments_named.symm) hnext
  have hcomes : Layout.ComesBy options.segment source k line before after :=
    ⟨Layout.readLines_eq_ok_iff.2 ⟨_, hfront⟩, text, named, htext, hreads⟩
  rcases Image.writeLine_eq_ok_iff.1 hnext with ⟨address, moved, hnone, -, -⟩ |
    ⟨emission, written, hsome, hwritten, rfl⟩
  · refine ⟨before, after, none, hcomes, hsegments ▸ hnone, ?_⟩
    rintro _ ⟨⟩
  · refine ⟨before, after, some emission, hcomes, hsegments ▸ hsome, ?_⟩
    rintro _ ⟨⟩
    have hholds := holds_of_writeLines hreached hnext hlast (hsplit ▸ hrun.nodup_numbers.1) hsome
      options.listingWidth layout.start?
    rw [List.length_take_of_le (Nat.le_of_lt hlt), hsegments] at hholds
    obtain ⟨memory, origins, -, rfl⟩ := Image.emit_eq_ok_iff.1 hwritten
    exact ⟨hholds, by rw [← hbehind, ← hsegments]; rfl⟩

end Assembly

end Z80
