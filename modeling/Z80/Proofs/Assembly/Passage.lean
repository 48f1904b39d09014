import Z80.Proofs.Assembly.Emission
import Z80.Proofs.Expr.Simple
import Z80.Proofs.Source.Statement

/-!
# Portions of text that pass

A portion of source text passes if both passes go through it, from one location to another: the
first defines its names, the second writes its bytes.  Portions pass one behind the other, so a text
passes if its lines do.

## Main definitions

* `Z80.Image.HasRoom`, `Z80.Image.Adds` — an image in which bytes can be written, and were written.
* `Z80.Source.Statement.Writes` — a statement with the bytes that it writes at an address.
* `Z80.Source.Statement.Leads` — a statement that both passes go through.
* `Z80.Source.Statement.Fails` — a statement that only the first pass goes through.
* `Z80.Passage` — texts that both passes go through.

## Main results

* `Z80.passage_line` — a line passes if its name can be defined and its statement leads on.
* `Z80.Passage.append` — two portions pass one behind the other.
* `Z80.Passage.assemble_eq_ok` — what a text that passes is assembled to.
* `Z80.Passage.assemble_eq_error` — how a text fails that passes up to its last line.

## Design

The names that are known in front of a portion matter only in that they are different from its own.
The second pass is told what labels are worth, and need not know where they were defined.
-/

namespace Z80

open Source (Definition ReadsAs Statement)

variable {label : UInt16 → Option String} {start middle stop : UInt16}
  {cells cells' : List (UInt16 × UInt8)} {names names' : List (String × UInt16)}

/-! ### Images -/

namespace Image

variable {image next after : Image}

/-- An image in which some cells can be written: they have different addresses, all of them free. -/
structure HasRoom (image : Image) (cells : List (UInt16 × UInt8)) : Prop where
  nodup : (cells.map Prod.fst).Nodup
  free : ∀ a ∈ cells.map Prod.fst, image.origins.isOwned a = false

/-- The image `after` is at the location `stop`, with some cells beside those of `image`. -/
structure Adds (image : Image) (cells : List (UInt16 × UInt8)) (stop : UInt16)
    (after : Image) : Prop where
  location : after.segments.location = stop
  memory : after.memory = image.memory.writeAll cells
  isOwned : ∀ a, after.origins.isOwned a ↔ image.origins.isOwned a ∨ a ∈ cells.map Prod.fst

/-- There is room for the first of two portions. -/
lemma HasRoom.left (h : image.HasRoom (cells ++ cells')) : image.HasRoom cells where
  nodup := by
    have hnodup := h.nodup
    rw [List.map_append, List.nodup_append] at hnodup
    exact hnodup.1
  free a ha := h.free a (by rw [List.map_append]; exact List.mem_append_left _ ha)

/-- There is room for the second of two portions behind the first. -/
lemma HasRoom.right (h : image.HasRoom (cells ++ cells')) (hadds : image.Adds cells middle next) :
    next.HasRoom cells' := by
  have hnodup := h.nodup
  rw [List.map_append, List.nodup_append] at hnodup
  refine ⟨hnodup.2.1, fun a ha => ?_⟩
  rw [Bool.eq_false_iff]
  intro howned
  rcases (hadds.isOwned a).1 howned with hold | hfirst
  · rw [h.free a (by rw [List.map_append]; exact List.mem_append_right _ ha)] at hold
    simp at hold
  · exact hnodup.2.2 a hfirst a ha rfl

namespace Adds

/-- Nothing is added where nothing is written. -/
lemma refl (image : Image) : image.Adds [] image.segments.location image where
  location := rfl
  memory := rfl
  isOwned a := by simp

/-- Two portions are added one behind the other. -/
lemma trans (h : image.Adds cells middle next) (h' : next.Adds cells' stop after) :
    image.Adds (cells ++ cells') stop after where
  location := h'.location
  memory := by rw [h'.memory, h.memory, Memory.writeAll_append]
  isOwned a := by rw [h'.isOwned, h.isOwned, List.map_append, List.mem_append, or_assoc]

/-- An entry of the listing adds nothing. -/
lemma list (h : image.Adds cells stop after) (entry : Listing.Entry) :
    image.Adds cells stop (after.list entry) :=
  ⟨h.location, h.memory, h.isOwned⟩

end Adds

/-- **Bytes are emitted where there is room for them.** -/
theorem exists_emit {number : Nat} {bytes : List UInt8}
    (hlocation : image.segments.location = start) (hroom : image.HasRoom (cellsFrom start bytes)) :
    ∃ after, image.emit number bytes = .ok after ∧
      image.Adds (cellsFrom start bytes) (start + UInt16.ofNat bytes.length) after := by
  obtain ⟨hnodup, hfree⟩ := hroom
  rw [map_fst_cellsFrom] at hnodup hfree
  have hnone : ∀ a ∈ addressesFrom start bytes.length, image.origins.lineAt? a = none := by
    intro a ha
    have hfreeAt := hfree a ha
    rwa [OriginMap.isOwned, Option.isSome_eq_false_iff, Option.isNone_iff_eq_none] at hfreeAt
  have hclaim : claim number image.memory image.origins start bytes =
      .ok (image.memory.load start bytes,
        image.origins.assignAll number (addressesFrom start bytes.length)) :=
    claim_eq_ok_iff.2 ⟨hnodup, hnone, rfl, rfl⟩
  refine ⟨_, emit_eq_ok_iff.2 ⟨_, _, hlocation ▸ hclaim, rfl⟩, ?_, ?_, fun a => ?_⟩
  · show (image.segments.moveTo (image.segments.location + _)).location = _
    rw [Segments.location_moveTo, hlocation]
  · rw [hlocation]
    exact Memory.load_eq_writeAll ..
  · rw [hlocation, map_fst_cellsFrom, OriginMap.isOwned, OriginMap.lineAt?_assignAll,
      OriginMap.isOwned]
    by_cases ha : a ∈ addressesFrom start bytes.length
    · simp [ha]
    · simp [ha]

end Image

/-! ### Statements -/

namespace Source.Statement

/-- A statement that writes bytes at an address, if labels have the values of their addresses. -/
structure Writes (statement : Statement) (label : UInt16 → Option String) (address : UInt16)
    (bytes : List UInt8) : Prop where
  ne_stop : statement ≠ .stop
  placed : ∀ layout : Layout,
    layout.place statement = .ok (layout.advance (UInt16.ofNat bytes.length))
  emitted : ∀ scope : Expr.Scope, scope.here = address → scope.Knows label →
    ∃ emission, statement.emission? scope = .ok (some emission) ∧ emission.bytes = bytes

/-- A statement that leads both passes from the location `start` to `stop`, and the second writes
some cells, if labels have the values of their addresses. -/
structure Leads (statement : Statement) (label : UInt16 → Option String) (start stop : UInt16)
    (cells : List (UInt16 × UInt8)) : Prop where
  ne_stop : statement ≠ .stop
  placed : ∀ layout : Layout, layout.segments.location = start →
    ∃ after, layout.place statement = .ok after ∧ after.segments.location = stop
  written : ∀ (image : Image) (symbols : SymbolTable) (number : Nat) (source : String),
    (symbols.scope start).Knows label → image.segments.location = start → image.HasRoom cells →
    ∃ after, image.writeLine symbols ⟨number, source, statement⟩ = .ok after ∧
      image.Adds cells stop after

/-- A statement that is given a place at the location `start` and then has no bytes, if labels have
the values of their addresses. -/
structure Fails (statement : Statement) (label : UInt16 → Option String) (start : UInt16)
    (fault : Fault) : Prop where
  ne_stop : statement ≠ .stop
  placed : ∀ layout : Layout, ∃ after, layout.place statement = .ok after
  failed : ∀ scope : Expr.Scope, scope.here = start → scope.Knows label →
    statement.emission? scope = .error fault

variable {statement : Statement} {bytes : List UInt8}

/-- A statement writes the same if more labels are known. -/
lemma Writes.mono {more : UInt16 → Option String} (h : statement.Writes label start bytes)
    (hmore : ∀ (address : UInt16) (name : String), label address = some name →
      more address = some name) : statement.Writes more start bytes where
  ne_stop := h.ne_stop
  placed := h.placed
  emitted scope hhere hknows :=
    h.emitted scope hhere fun address name hname => hknows address name (hmore address name hname)

/-- **A statement that writes bytes leads behind them.** -/
theorem Writes.leads (h : statement.Writes label start bytes) :
    statement.Leads label start (start + UInt16.ofNat bytes.length) (cellsFrom start bytes) where
  ne_stop := h.ne_stop
  placed layout hlocation := by
    refine ⟨_, h.placed layout, ?_⟩
    show (layout.segments.moveTo (layout.segments.location + _)).location = _
    rw [Segments.location_moveTo, hlocation]
  written image symbols number source hknows hlocation hroom := by
    obtain ⟨emission, hemission, hbytes⟩ := h.emitted (symbols.scope start) rfl hknows
    obtain ⟨after, hemit, hadds⟩ :=
      @Image.exists_emit start image number bytes hlocation hroom
    refine ⟨_, Image.writeLine_eq_ok_iff.2 (.inr ⟨emission, after, ?_, ?_, rfl⟩), hadds.list _⟩
    · rw [hlocation]
      exact hemission
    · rw [hbytes]
      exact hemit

/-- A line without a statement leads nowhere else. -/
lemma leads_empty (label : UInt16 → Option String) (start : UInt16) :
    Statement.empty.Leads label start start [] where
  ne_stop := by simp
  placed layout hlocation := ⟨layout, rfl, hlocation⟩
  written image symbols number source _ hlocation _ := by
    refine ⟨_, Image.writeLine_eq_ok_iff.2 (.inl ⟨none, image, rfl, rfl, rfl⟩), ?_⟩
    rw [← hlocation]
    exact (Image.Adds.refl image).list _

/-- **An origin leads to the address that its operand is worth in every scope.** -/
theorem leads_origin (label : UInt16 → Option String) (start : UInt16) {text : String}
    (htext : ∀ scope, Expr.evaluateWord scope text = .ok stop) :
    (Statement.origin text).Leads label start stop [] where
  ne_stop := by simp
  placed layout _ := by
    refine ⟨_, bind_eq_ok_iff.2 ⟨stop, liftExpr_eq_ok_iff.2 (htext _), rfl⟩, ?_⟩
    exact Segments.location_moveTo _ _
  written image symbols number source _ _ _ := by
    refine ⟨_, Image.writeLine_eq_ok_iff.2 (.inl ⟨some stop,
      { image with segments := image.segments.moveTo stop }, rfl, ?_, rfl⟩), ?_⟩
    · exact bind_eq_ok_iff.2 ⟨stop, liftExpr_eq_ok_iff.2 (htext _), rfl⟩
    · exact ⟨Segments.location_moveTo _ _, rfl, fun a => by simp [Image.list]⟩

end Source.Statement

/-! ### Definitions -/

namespace Layout

/-- A layout at a location, with some names and their values. -/
structure At (layout : Layout) (location : UInt16) (names : List (String × UInt16)) : Prop where
  location : layout.segments.location = location
  symbols : layout.symbols.Lists names

/-- A definition by which the first pass adds some names at the location `start`, if they are
different from each other and from those that are known. -/
def Defines (definition : Option Definition) (start : UInt16) (names : List (String × UInt16)) :
    Prop :=
  ∀ (layout : Layout) (number : Nat) (known : List (String × UInt16)), layout.At start known →
    ((known ++ names).map Prod.fst).Nodup →
    ∃ named, layout.define number definition = .ok named ∧ named.At start (known ++ names)

/-- A line that defines no name adds none. -/
lemma defines_none (start : UInt16) : Defines none start [] := by
  intro layout number known hat _
  refine ⟨layout, rfl, ?_⟩
  rwa [List.append_nil]

/-- A name in lower case can be defined if it is different from those that are known. -/
lemma At.name {layout : Layout} {known : List (String × UInt16)} (hat : layout.At start known)
    {name : String} {value : UInt16} (hlower : Text.lower name = name)
    (hnodup : ((known ++ [(name, value)]).map Prod.fst).Nodup) (number : Nat)
    (kind : Symbol.Kind) :
    ∃ named, layout.name number kind name value = .ok named ∧
      named.At start (known ++ [(name, value)]) := by
  have hnew : name ∉ known.map Prod.fst := by
    rw [List.map_append, List.nodup_append] at hnodup
    exact fun hmem => hnodup.2.2 name hmem name (by simp) rfl
  obtain ⟨symbols, hdefine, hlists⟩ :=
    @SymbolTable.Lists.define _ ⟨name, value, number, kind⟩ _ hat.symbols hlower hnew
  exact ⟨{ layout with symbols }, by rw [Layout.name, hdefine], hat.location, hlists⟩

/-- **A label is defined as the location of its line.** -/
lemma defines_label {name : String} (hlower : Text.lower name = name) (start : UInt16) :
    Defines (some (.label name)) start [(name, start)] := by
  intro layout number known hat hnodup
  obtain ⟨named, hname, hnamed⟩ := hat.name hlower hnodup number .label
  refine ⟨named, ?_, hnamed⟩
  rw [define, hat.location, hname]

/-- **A constant is defined as what its operand is worth in every scope.** -/
lemma defines_constant {name text : String} {value : UInt16} (hlower : Text.lower name = name)
    (htext : ∀ scope, Expr.evaluateWord scope text = .ok value) (start : UInt16) :
    Defines (some (.constant name text)) start [(name, value)] := by
  intro layout number known hat hnodup
  obtain ⟨named, hname, hnamed⟩ := hat.name hlower hnodup number .constant
  exact ⟨named, bind_eq_ok_iff.2 ⟨value, liftExpr_eq_ok_iff.2 (htext _), hname⟩, hnamed⟩

end Layout

/-! ### Portions of text -/

/-- Prepared lines by which the second pass is led from the location `start` to `stop` and writes
some cells, if labels have the values of their addresses. -/
def Image.Leads (label : UInt16 → Option String) (lines : List PreparedLine)
    (start stop : UInt16) (cells : List (UInt16 × UInt8)) : Prop :=
  ∀ (image : Image) (symbols : SymbolTable), (∀ here, (symbols.scope here).Knows label) →
    image.segments.location = start → image.HasRoom cells →
    ∃ after, image.writeLines symbols lines = .ok after ∧ image.Adds cells stop after

/-- Texts that both passes go through from the location `start` to `stop`: the first defines some
names, if they are different from each other and from those that are known, and the second writes
some cells, if labels have the values of their addresses. -/
def Passage (label : UInt16 → Option String) (texts : List String) (start stop : UInt16)
    (names : List (String × UInt16)) (cells : List (UInt16 × UInt8)) : Prop :=
  ∀ (before : Layout) (number : Nat) (known : List (String × UInt16)), before.At start known →
    ((known ++ names).map Prod.fst).Nodup →
    ∃ lines after, Layout.Run before number texts lines after ∧
      (∀ line ∈ lines, line.statement ≠ .stop) ∧ after.At stop (known ++ names) ∧
      Image.Leads label lines start stop cells

/-- **A line passes if its name can be defined and its statement leads on.** -/
theorem passage_line {text : String} {definition : Option Definition} {statement : Statement}
    (hreads : ReadsAs text definition statement) (hdefines : Layout.Defines definition start names)
    (hleads : statement.Leads label start stop cells) :
    Passage label [text] start stop names cells := by
  intro before number known hat hnodup
  obtain ⟨parts, hparts, rfl, hstatement⟩ := hreads
  obtain ⟨named, hdefine, hnamed⟩ := hdefines before number known hat hnodup
  let line : PreparedLine := ⟨number, String.ofList (Text.trimEnd text.toList), statement⟩
  obtain ⟨after, hplaced, hlocation⟩ := hleads.placed (named.keep line) hnamed.location
  have hline : before.Reads number text named line after :=
    ⟨⟨parts, hparts, hdefine, hstatement⟩, rfl, rfl, hplaced⟩
  refine ⟨[line], after, .cons hline hleads.ne_stop .nil, ?_, ⟨hlocation, ?_⟩, ?_⟩
  · intro other hmem
    rw [List.mem_singleton.1 hmem]
    exact hleads.ne_stop
  · rw [hline.symbols_after]
    exact hnamed.symbols
  · intro image symbols hknows hstart hroom
    obtain ⟨last, hlast, hadds⟩ :=
      hleads.written image symbols number line.source (hknows start) hstart hroom
    exact ⟨last, Image.writeLines_cons_eq_ok_iff.2 ⟨last, hlast, rfl⟩, hadds⟩

namespace Passage

variable {texts texts' : List String}

/-- No text at all passes. -/
lemma nil (label : UInt16 → Option String) (start : UInt16) :
    Passage label [] start start [] [] := by
  intro before number known hat _
  refine ⟨[], before, .nil, by simp, by rwa [List.append_nil], ?_⟩
  intro image symbols _ hstart _
  refine ⟨image, rfl, ?_⟩
  rw [← hstart]
  exact .refl image

/-- **Two portions pass one behind the other.** -/
theorem append (h : Passage label texts start middle names cells)
    (h' : Passage label texts' middle stop names' cells') :
    Passage label (texts ++ texts') start stop (names ++ names') (cells ++ cells') := by
  intro before number known hat hnodup
  rw [← List.append_assoc] at hnodup ⊢
  have hfirst : ((known ++ names).map Prod.fst).Nodup := by
    rw [List.map_append, List.nodup_append] at hnodup
    exact hnodup.1
  obtain ⟨lines, between, hrun, hstop, hbetween, hlines⟩ := h before number known hat hfirst
  obtain ⟨lines', after, hrun', hstop', hafter, hlines'⟩ :=
    h' between (number + texts.length) (known ++ names) hbetween hnodup
  refine ⟨lines ++ lines', after, hrun.append hstop hrun', ?_, hafter, ?_⟩
  · intro line hmem
    rcases List.mem_append.1 hmem with hline | hline
    · exact hstop line hline
    · exact hstop' line hline
  · intro image symbols hknows hstart hroom
    obtain ⟨next, hnext, hadds⟩ := hlines image symbols hknows hstart hroom.left
    obtain ⟨last, hlast, hadds'⟩ :=
      hlines' next symbols hknows hadds.location (hroom.right hadds)
    exact ⟨last, Image.writeLines_append_eq_ok_iff.2 ⟨next, hnext, hlast⟩, hadds.trans hadds'⟩

/-- A text that passes does so from the start: no names are known there and no address is written.
As its names are those of the labels, labels have the values of their addresses once the first pass
is through. -/
lemma exists_image (h : Passage label texts 0 stop names cells)
    (hnames : (names.map Prod.fst).Nodup) (hcells : (cells.map Prod.fst).Nodup)
    (hlabel : ∀ (address : UInt16) (name : String), label address = some name →
      Text.lower name = name ∧ (name, address) ∈ names) (segment : Segment) :
    ∃ lines layout image, Layout.Run (Layout.blank segment) 1 texts lines layout ∧
      (∀ line ∈ lines, line.statement ≠ .stop) ∧ layout.At stop names ∧
      (∀ here, (layout.symbols.scope here).Knows label) ∧
      (Image.blank segment).writeLines layout.symbols lines = .ok image ∧
      (Image.blank segment).Adds cells stop image := by
  have hblank : (Layout.blank segment).At 0 [] := by
    refine ⟨?_, SymbolTable.Lists.empty⟩
    cases segment <;> rfl
  obtain ⟨lines, layout, hrun, hstop, hlayout, hleads⟩ := h _ 1 [] hblank hnames
  rw [List.nil_append] at hlayout
  have hknows : ∀ here, (layout.symbols.scope here).Knows label := by
    intro here address name hname
    obtain ⟨hlower, hmem⟩ := hlabel address name hname
    exact hlayout.symbols.value?_eq hlower hnames hmem
  have hroom : (Image.blank segment).HasRoom cells :=
    ⟨hcells, fun a _ => by simp [Image.blank, OriginMap.isOwned]⟩
  obtain ⟨image, himage, hadds⟩ := hleads _ _ hknows hblank.location hroom
  exact ⟨lines, layout, image, hrun, hstop, hlayout, hknows, himage, hadds⟩

/-- **What a text that passes is assembled to**: its cells and its names, if no two names are the
same, no two cells have the same address, and the names are the labels. -/
theorem assemble_eq_ok {options : Assembly.Options} {source : String}
    (h : Passage label (Text.lines source) 0 stop names cells)
    (hnames : (names.map Prod.fst).Nodup) (hcells : (cells.map Prod.fst).Nodup)
    (hlabel : ∀ (address : UInt16) (name : String), label address = some name →
      Text.lower name = name ∧ (name, address) ∈ names) :
    ∃ assembly, assemble options source = .ok assembly ∧
      assembly.memory = Memory.blank.writeAll cells ∧
      (∀ a, assembly.origins.isOwned a ↔ a ∈ cells.map Prod.fst) ∧
      assembly.symbols.Lists names := by
  obtain ⟨lines, layout, image, hrun, -, hlayout, -, himage, hadds⟩ :=
    h.exists_image hnames hcells hlabel options.segment
  have hlines : layout.lines.toList = lines := by simpa [Layout.blank] using hrun.lines_after
  refine ⟨_, assemble_eq_ok_iff.2 ⟨layout, image, Layout.readLines_eq_ok_iff.2 ⟨lines, hrun⟩,
    by rwa [Image.ofLayout, hlines], rfl⟩, hadds.memory, fun a => ?_, hlayout.symbols⟩
  rw [hadds.isOwned]
  simp [Image.blank, OriginMap.isOwned]

/-- **A text that passes up to its last line fails there**, if the statement of this line has no
bytes. -/
theorem assemble_eq_error {options : Assembly.Options} {source text : String} {fault : Fault}
    {statement : Statement} (h : Passage label texts 0 stop names cells)
    (hsource : Text.lines source = texts ++ [text]) (hreads : ReadsAs text none statement)
    (hfails : statement.Fails label stop fault) (hnames : (names.map Prod.fst).Nodup)
    (hcells : (cells.map Prod.fst).Nodup)
    (hlabel : ∀ (address : UInt16) (name : String), label address = some name →
      Text.lower name = name ∧ (name, address) ∈ names) :
    assemble options source = .error ⟨1 + texts.length, fault⟩ := by
  obtain ⟨lines, layout, image, hrun, hstop, -, hknows, himage, hadds⟩ :=
    h.exists_image hnames hcells hlabel options.segment
  obtain ⟨parts, hparts, hdefinition, hstatement⟩ := hreads
  let line : PreparedLine :=
    ⟨1 + texts.length, String.ofList (Text.trimEnd text.toList), statement⟩
  obtain ⟨after, hplaced⟩ := hfails.placed (layout.keep line)
  have hline : layout.Reads (1 + texts.length) text layout line after :=
    ⟨⟨parts, hparts, by rw [hdefinition]; rfl, hstatement⟩, rfl, rfl, hplaced⟩
  have hwhole := hrun.append hstop (.cons hline hfails.ne_stop .nil)
  have hlayout : Layout.ofSource options.segment source = .ok after := by
    rw [Layout.ofSource, hsource]
    exact Layout.readLines_eq_ok_iff.2 ⟨_, hwhole⟩
  have hlines : after.lines.toList = lines ++ [line] := by
    simpa [Layout.blank] using hwhole.lines_after
  -- the second pass goes through all other lines, under the same names
  have hlast : image.writeLine layout.symbols line = .error fault :=
    Image.writeLine_eq_error_iff.2 (.inl (hfails.failed _ hadds.location (hknows _)))
  have himage : Image.ofLayout options.segment after = .error ⟨1 + texts.length, fault⟩ := by
    rw [Image.ofLayout, hlines, hline.symbols_after, Image.writeLines_append, himage, ok_bind,
      Image.writeLines, hlast]
  simp only [assemble, hlayout, himage]

end Passage

end Z80
