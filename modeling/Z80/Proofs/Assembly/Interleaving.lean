import Z80.Proofs.Assembly.Overlap
import Z80.Proofs.Assembly.Threads

/-!
# Segments may take turns

What a text assembles to depends on its threads alone, and not on how they are interleaved.  So the
sections of a text, each of them the lines under one directive for a segment, can be put together
by segment.

## Main definitions

* `Z80.cellsIn` — the bytes that lines of one segment emit, each with its address.
* `Z80.SameThreads` — texts with the same threads.
* `Z80.Section`, `Z80.sectionsOf` — the sections of a text.
* `Z80.grouped` — sections in the order of their segments.

## Main results

* `Z80.mem_emissionsFrom` — what lines emit is what their threads emit.
* `Z80.Assembly.eq_of_threads` — texts with the same threads have the same bytes and names.
* `Z80.Assembly.interleaving_irrelevant` — so have a text and its grouped sections.

## Design

The names of a text are not in the order of its threads, and neither are its bytes.  Therefore only
the values of names are compared, and the bytes as a set of cells; since no address is written
twice, the cells determine the memory.
-/

namespace Z80

open Source (Statement)

/-! ### The bytes of a thread -/

/-- The bytes that lines of one segment emit from a location on, each with its address. -/
def cellsIn (symbols : SymbolTable) : (location : UInt16) → List Clause → List (UInt16 × UInt8)
  | _, [] => []
  | location, clause :: more =>
    match clause.statement.emission? (symbols.scope location) with
    | .ok (some emission) =>
      cellsFrom location emission.bytes ++
        cellsIn symbols (location + UInt16.ofNat emission.bytes.length) more
    | _ =>
      match clause.statement.counterBehind (symbols.scope location) with
      | .ok next => cellsIn symbols next more
      | .error _ => []

/-- The address and the value of a byte that is emitted. -/
def Emitted.cell (e : Emitted) : UInt16 × UInt8 :=
  (e.address, e.byte)

/-- The cells of a block follow each other. -/
lemma Block.map_cell_emitted (b : Block) :
    b.emitted.map Emitted.cell = cellsFrom b.address b.bytes := by
  simp [emitted, Emitted.cell, Function.comp_def]

/-- A thread depends on the values of names only. -/
lemma cellsIn_congr {symbols symbols' : SymbolTable} (h : symbols.value? = symbols'.value?)
    (location : UInt16) (clauses : List Clause) :
    cellsIn symbols location clauses = cellsIn symbols' location clauses := by
  induction clauses generalizing location with
  | nil => rfl
  | cons clause more ih => simp only [cellsIn, SymbolTable.scope, h, ih]

/-- A statement without bytes that is no directive for a segment moves the active counter. -/
lemma Segments.directed_eq {segments : Segments} {scope : Expr.Scope} {statement : Statement}
    (hhere : scope.here = segments.location) (hnone : statement.target? = none)
    (hemission : statement.emission? scope = .ok none) :
    segments.directed scope statement = (statement.counterBehind scope).map segments.moveTo := by
  have hstay : (.ok segments : Except Fault Segments) =
      (Except.ok scope.here).map segments.moveTo := by
    rw [hhere, Except.map, Segments.moveTo_location]
  cases statement with
  | segment target => cases hnone
  | empty | stop => exact hstay
  | origin text => rfl
  | bytes | words | space =>
    obtain ⟨_, -, h⟩ := bind_eq_ok_iff.1 hemission
    cases h
  | instruction word texts =>
    obtain ⟨_, -, h⟩ := map_eq_ok_iff.1 hemission
    cases h

section Emissions

variable {symbols : SymbolTable} {segments : Segments} {line : PreparedLine}
  {lines : List PreparedLine}

/-- Behind a directive for a segment its counter is active. -/
lemma emissionsFrom_cons_of_target {target : Segment}
    (h : line.statement.target? = some target) :
    emissionsFrom symbols segments (line :: lines) =
      emissionsFrom symbols (segments.switch target) lines := by
  obtain ⟨number, source, statement⟩ := line
  cases statement <;> cases h
  rfl

/-- **A line emits the same bytes in its thread**, and moves the active counter to where it moves
the location of the thread. -/
theorem emissionsFrom_cons_of_none (hnone : line.statement.target? = none)
    (h : (emissionsFrom symbols segments (line :: lines)).failure? = none) :
    ∃ front next,
      (emissionsFrom symbols segments (line :: lines)).emitted.map Emitted.cell =
        front ++ (emissionsFrom symbols (segments.moveTo next) lines).emitted.map Emitted.cell ∧
      (emissionsFrom symbols (segments.moveTo next) lines).failure? = none ∧
      ∀ clause : Clause, clause.statement = line.statement → ∀ more,
        cellsIn symbols segments.location (clause :: more) =
          front ++ cellsIn symbols next more := by
  simp only [emissionsFrom, cellsIn] at h ⊢
  cases hemission : line.statement.emission? (symbols.scope segments.location) with
  | error fault => simp [hemission] at h
  | ok emission =>
    cases emission with
    | some emission =>
      simp only [hemission] at h
      refine ⟨_, _, ?_, h, fun clause hclause more => by rw [hclause, hemission]⟩
      rw [Emissions.emitted, List.flatMap_cons, List.map_append, Block.map_cell_emitted]
      rfl
    | none =>
      simp only [hemission, Segments.directed_eq rfl hnone hemission] at h ⊢
      cases hnext : line.statement.counterBehind (symbols.scope segments.location) with
      | error fault => simp [hnext, Except.map] at h
      | ok next =>
        simp only [hnext, Except.map] at h ⊢
        exact ⟨[], next, rfl, h, fun clause hclause more => by rw [hclause, hemission, hnext]; rfl⟩

/-- **What lines emit is what their threads emit.**

**Proof sketch.** Induction on the lines.  A line is in front of the thread of the active segment,
and the other threads have their locations behind it. -/
theorem mem_emissionsFrom (h : (emissionsFrom symbols segments lines).failure? = none)
    {clauses : List Clause}
    (halign : clauses.map Clause.statement = lines.map PreparedLine.statement)
    {cell : UInt16 × UInt8} :
    cell ∈ (emissionsFrom symbols segments lines).emitted.map Emitted.cell ↔
      ∃ segment, cell ∈
        cellsIn symbols (segments.counter segment) (thread segment segments.active clauses) := by
  induction lines generalizing segments clauses with
  | nil =>
    obtain rfl := List.map_eq_nil_iff.1 halign
    simp [emissionsFrom, Emissions.emitted, thread, cellsIn]
  | cons line lines ih =>
    obtain ⟨clause, more, rfl, hstatement, halign⟩ := List.map_eq_cons_iff.1 halign
    cases htarget : clause.statement.target? with
    | some target =>
      rw [emissionsFrom_cons_of_target (hstatement ▸ htarget)] at h ⊢
      simp only [ih h halign, Segments.counter_switch, thread_cons_of_target htarget]
      rfl
    | none =>
      obtain ⟨front, next, hcells, hmore, hown⟩ :=
        emissionsFrom_cons_of_none (hstatement ▸ htarget) h
      have hown := hown clause hstatement (thread segments.active segments.active more)
      rw [hcells, List.mem_append, ih hmore halign]
      simp only [Segments.counter_moveTo, Segments.active_moveTo, thread_cons_of_none htarget]
      constructor
      · rintro (hfront | ⟨segment, hmem⟩)
        · refine ⟨segments.active, ?_⟩
          rw [if_pos rfl]
          exact hown ▸ List.mem_append_left _ hfront
        · refine ⟨segment, ?_⟩
          split at hmem
          · next hactive =>
            subst hactive
            rw [if_pos rfl]
            exact hown ▸ List.mem_append_right _ hmem
          · next hactive => rwa [if_neg hactive]
      · rintro ⟨segment, hmem⟩
        split at hmem
        · next hactive =>
          subst hactive
          rcases List.mem_append.1 (hown ▸ hmem : _ ∈ front ++ _) with hfront | hrest
          · exact .inl hfront
          · exact .inr ⟨segments.active, by rwa [if_pos rfl]⟩
        · next hactive => exact .inr ⟨segment, by rwa [if_neg hactive]⟩

end Emissions

/-! ### Assemblies -/

/-- What the lines of a text say. -/
def clausesOf (source : String) : List Clause :=
  (Text.lines source).map Clause.ofText

/-- The bytes of a text by segment, each with its address. -/
def cellsOf (symbols : SymbolTable) (active : Segment) (clauses : List Clause) :
    List (UInt16 × UInt8) :=
  Segment.all.flatMap fun segment => cellsIn symbols 0 (thread segment active clauses)

/-- Two texts of orderly lines with the same threads. -/
structure SameThreads (active : Segment) (source other : String) : Prop where
  orderly_left : ∀ text ∈ Text.lines source, (Clause.ofText text).IsOrderly
  orderly_right : ∀ text ∈ Text.lines other, (Clause.ofText text).IsOrderly
  thread_eq : ∀ segment, thread segment active (clausesOf source) =
    thread segment active (clausesOf other)

lemma SameThreads.symm {active : Segment} {source other : String}
    (h : SameThreads active source other) : SameThreads active other source :=
  ⟨h.orderly_right, h.orderly_left, fun segment => (h.thread_eq segment).symm⟩

/-- A prepared line has the statement of its line. -/
lemma Layout.Run.statements {before after : Layout} {number : Nat} {texts : List String}
    {lines : List PreparedLine} (h : Run before number texts lines after)
    (horderly : ∀ text ∈ texts, (Clause.ofText text).IsOrderly) :
    (texts.map Clause.ofText).map Clause.statement = lines.map PreparedLine.statement := by
  induction h with
  | nil => rfl
  | stop hline hstop => exact absurd hstop (hline.not_stop (horderly _ List.mem_cons_self))
  | cons hline _ _ ih =>
    rw [List.map_cons, List.map_cons, List.map_cons, hline.clause_ofText.1,
      ih (List.forall_mem_cons.1 horderly).2]

namespace Assembly

variable {options : Assembly.Options} {source other : String} {first second : Assembly}

/-- **Memory holds what the threads emit**, and all other addresses are blank. -/
theorem memory_of_threads (h : assemble options source = .ok first)
    (horderly : ∀ text ∈ Text.lines source, (Clause.ofText text).IsOrderly) :
    (∀ cell ∈ cellsOf first.symbols options.segment (clausesOf source),
      first.memory.read cell.1 = cell.2 ∧ first.origins.isOwned cell.1 = true) ∧
    ∀ a ∉ (cellsOf first.symbols options.segment (clausesOf source)).map Prod.fst,
      first.memory.read a = 0 ∧ first.origins.isOwned a = false := by
  obtain ⟨layout, image, hlayout, -, rfl⟩ := assemble_eq_ok_iff.1 h
  obtain ⟨lines, hrun⟩ := Layout.readLines_eq_ok_iff.1 hlayout
  have hlines : layout.lines.toList = lines := by simpa [Layout.blank] using hrun.lines_after
  obtain ⟨hwritten, hfailure⟩ := claimAll_of_assemble h hlayout
  obtain ⟨-, -, hemitted, hothers⟩ := Image.claimAll_spec hwritten
  have hcells : ∀ cell, cell ∈ cellsOf layout.symbols options.segment (clausesOf source) ↔
      ∃ e ∈ (layout.emissions options.segment).emitted, e.cell = cell := by
    intro cell
    rw [Layout.emissions, hlines] at hfailure
    rw [← List.mem_map, Layout.emissions, hlines,
      mem_emissionsFrom hfailure (hrun.statements horderly), cellsOf, List.mem_flatMap]
    refine exists_congr fun segment => ?_
    cases segment <;> exact and_iff_right (by decide)
  refine ⟨fun cell hcell => ?_, fun a ha => ?_⟩
  · obtain ⟨e, he, rfl⟩ := (hcells cell).1 hcell
    obtain ⟨hread, hline⟩ := hemitted e he
    exact ⟨hread, by simp only [OriginMap.isOwned, Emitted.cell, hline, Option.isSome_some]⟩
  · obtain ⟨hread, hline⟩ := hothers a fun hmem => by
      obtain ⟨e, he, rfl⟩ := List.mem_map.1 hmem
      exact ha (List.mem_map.2 ⟨e.cell, (hcells _).2 ⟨e, he, rfl⟩, rfl⟩)
    refine ⟨hread.trans (Memory.read_blank a), ?_⟩
    rw [OriginMap.isOwned, hline, OriginMap.lineAt?_blank, Option.isSome_none]

/-- The names of a text cover those of another one with the same threads. -/
lemma covers_of_threads (h : assemble options source = .ok first)
    (h' : assemble options other = .ok second)
    (hsame : SameThreads options.segment source other) :
    first.symbols.Covers second.symbols := by
  obtain ⟨layout, -, hlayout, -, rfl⟩ := assemble_eq_ok_iff.1 h
  obtain ⟨layout', -, hlayout', -, rfl⟩ := assemble_eq_ok_iff.1 h'
  obtain ⟨lines, hrun⟩ := Layout.readLines_eq_ok_iff.1 hlayout
  obtain ⟨lines', hrun'⟩ := Layout.readLines_eq_ok_iff.1 hlayout'
  refine hrun'.covers hsame.orderly_right (fun name value hvalue => ?_) fun segment => ?_
  · simp [Layout.blank, SymbolTable.empty, SymbolTable.value?, SymbolTable.find?] at hvalue
  · exact hsame.thread_eq segment ▸ hrun.conform hsame.orderly_left segment

/-- **Texts with the same threads have the same bytes and names**, if both can be assembled.

**Proof sketch.** The threads of each text conform to its own names and thereby to those of the
other one, so the names have the same values.  Then the threads emit the same cells. -/
theorem eq_of_threads (h : assemble options source = .ok first)
    (h' : assemble options other = .ok second)
    (hsame : SameThreads options.segment source other) :
    first.memory = second.memory ∧
      (∀ a, first.origins.isOwned a = second.origins.isOwned a) ∧
      ∀ name, first.symbols.value? name = second.symbols.value? name := by
  have hvalues := (covers_of_threads h h' hsame).antisymm (covers_of_threads h' h hsame.symm)
  have hcells : cellsOf first.symbols options.segment (clausesOf source) =
      cellsOf second.symbols options.segment (clausesOf other) := by
    simp only [cellsOf, hsame.thread_eq, cellsIn_congr hvalues]
  obtain ⟨hemitted, hothers⟩ := memory_of_threads h hsame.orderly_left
  obtain ⟨hemitted', hothers'⟩ := memory_of_threads h' hsame.orderly_right
  rw [hcells] at hemitted hothers
  have hequal (a : UInt16) : first.memory.read a = second.memory.read a ∧
      first.origins.isOwned a = second.origins.isOwned a := by
    by_cases ha : a ∈ (cellsOf second.symbols options.segment (clausesOf other)).map Prod.fst
    · obtain ⟨cell, hcell, rfl⟩ := List.mem_map.1 ha
      obtain ⟨hread, howned⟩ := hemitted cell hcell
      obtain ⟨hread', howned'⟩ := hemitted' cell hcell
      exact ⟨hread.trans hread'.symm, howned.trans howned'.symm⟩
    · obtain ⟨hread, howned⟩ := hothers a ha
      obtain ⟨hread', howned'⟩ := hothers' a ha
      exact ⟨hread.trans hread'.symm, howned.trans howned'.symm⟩
  exact ⟨Memory.ext_read fun a => (hequal a).1, fun a => (hequal a).2, congrFun hvalues⟩

end Assembly

/-! ### Sections -/

/-- The segment that a line of text makes active. -/
def segmentOf? (text : String) : Option Segment :=
  (Clause.ofText text).statement.target?

/-- A directive for a segment, and the lines up to the next one. -/
structure Section where
  segment : Segment
  directive : String
  body : List String
  segmentOf_directive : segmentOf? directive = some segment
  segmentOf_body : ∀ text ∈ body, segmentOf? text = none

namespace Section

/-- The lines of a section. -/
def lines (s : Section) : List String :=
  s.directive :: s.body

/-- What the lines of a section say that are in its segment. -/
def clauses (s : Section) : List Clause :=
  s.body.map Clause.ofText

end Section

/-- The lines in front of the first directive for a segment, and the sections from there on. -/
def cut : List String →
    { front : List String // ∀ text ∈ front, segmentOf? text = none } × List Section
  | [] => (⟨[], by simp⟩, [])
  | text :: more =>
    match h : segmentOf? text with
    | some segment =>
      (⟨[], by simp⟩, ⟨segment, text, (cut more).1, h, (cut more).1.2⟩ :: (cut more).2)
    | none => (⟨text :: (cut more).1, List.forall_mem_cons.2 ⟨h, (cut more).1.2⟩⟩, (cut more).2)

/-- The sections of a text. -/
def sectionsOf (source : String) : List Section :=
  (cut (Text.lines source)).2

/-- The sections of each segment together, in the order of the segments. -/
def grouped (order : List Segment) (sections : List Section) : List Section :=
  order.flatMap fun segment => sections.filter fun s => s.segment = segment

/-- Lines are cut at each directive and nothing is lost. -/
lemma lines_cut (texts : List String) :
    (cut texts).1.1 ++ (cut texts).2.flatMap Section.lines = texts := by
  induction texts with
  | nil => rfl
  | cons text more ih =>
    rw [cut]
    split <;> simp [Section.lines, ih]

/-- Nothing is in front of the sections of a text that starts with a directive. -/
lemma lines_sectionsOf {source : String}
    (h : ((Text.lines source).head?.bind segmentOf?).isSome) :
    (sectionsOf source).flatMap Section.lines = Text.lines source := by
  have hlines := lines_cut (Text.lines source)
  suffices hnil : (cut (Text.lines source)).1.1 = [] by rwa [hnil] at hlines
  cases htexts : Text.lines source with
  | nil => rfl
  | cons text more =>
    rw [htexts] at h
    rw [cut]
    split
    · rfl
    · next hnone => simp [hnone] at h

/-- The thread of lines that have no directive for a segment. -/
lemma thread_append {segment active : Segment} {texts : List String}
    (h : ∀ text ∈ texts, segmentOf? text = none) (more : List Clause) :
    thread segment active (texts.map Clause.ofText ++ more) =
      if segment = active then texts.map Clause.ofText ++ thread segment active more
      else thread segment active more := by
  induction texts with
  | nil => simp
  | cons text texts ih =>
    obtain ⟨hnone, hmore⟩ := List.forall_mem_cons.1 h
    rw [List.map_cons, List.cons_append, thread_cons_of_none hnone, ih hmore]
    split <;> rfl

/-- **The thread of a segment is that of its sections.** -/
theorem thread_sections (segment active : Segment) (sections : List Section) :
    thread segment active ((sections.flatMap Section.lines).map Clause.ofText) =
      (sections.filter fun s => s.segment = segment).flatMap Section.clauses := by
  induction sections generalizing active with
  | nil => rfl
  | cons s sections ih =>
    rw [List.flatMap_cons, Section.lines, List.cons_append, List.map_cons,
      thread_cons_of_target s.segmentOf_directive, List.map_append,
      thread_append s.segmentOf_body, ih, List.filter_cons]
    by_cases hsegment : s.segment = segment
    · simp [hsegment, Section.clauses]
    · simp [hsegment, Ne.symm hsegment]

/-- **Grouping keeps the order of the sections of each segment.** -/
theorem filter_grouped {order : List Segment} (h : order.Perm Segment.all) (segment : Segment)
    (sections : List Section) :
    (grouped order sections).filter (fun s => s.segment = segment) =
      sections.filter fun s => s.segment = segment := by
  have hnone {others : List Segment} (hothers : segment ∉ others) :
      (grouped others sections).filter (fun s => s.segment = segment) = [] := by
    rw [List.filter_eq_nil_iff]
    intro s hs
    obtain ⟨own, hown, hs⟩ := List.mem_flatMap.1 hs
    have hsegment : s.segment = own := by simpa using (List.mem_filter.1 hs).2
    simpa [hsegment] using ne_of_mem_of_not_mem hown hothers
  have hmem : segment ∈ order := h.mem_iff.2 (by cases segment <;> decide)
  have hnodup : order.Nodup := h.nodup_iff.2 (by decide)
  obtain ⟨front, back, rfl⟩ := List.append_of_mem hmem
  rw [List.nodup_middle, List.nodup_cons, List.mem_append, not_or] at hnodup
  have hgrouped : grouped (front ++ segment :: back) sections =
      grouped front sections ++
        ((sections.filter fun s => s.segment = segment) ++ grouped back sections) := by
    rw [grouped, List.flatMap_append, List.flatMap_cons]
    rfl
  rw [hgrouped, List.filter_append, List.filter_append, hnone hnodup.1.1, hnone hnodup.1.2,
    List.filter_filter]
  simp

namespace Assembly

variable {options : Assembly.Options} {source other : String} {first second : Assembly}

/-- **Segments may take turns.**  A text that starts with a directive for a segment, has no `end`
and no directive for a segment with a name can be put together by segment, in any order of the
segments and with the sections of each one in their order.  If both texts can be assembled, they
have the same memory, the same addresses are owned, and each name has the same value.

**Proof sketch.** Both texts have the same threads, which are the sections of a segment one behind
the other. -/
theorem interleaving_irrelevant (hfirst : ((Text.lines source).head?.bind segmentOf?).isSome)
    (horderly : ∀ text ∈ Text.lines source, (Clause.ofText text).IsOrderly)
    {order : List Segment} (horder : order.Perm Segment.all)
    (hother : Text.lines other = (grouped order (sectionsOf source)).flatMap Section.lines)
    (h : assemble options source = .ok first) (h' : assemble options other = .ok second) :
    first.memory = second.memory ∧
      (∀ a, first.origins.isOwned a = second.origins.isOwned a) ∧
      ∀ name, first.symbols.value? name = second.symbols.value? name := by
  have hlines := lines_sectionsOf hfirst
  refine eq_of_threads h h' ⟨horderly, fun text htext => horderly text ?_, fun segment => ?_⟩
  · obtain ⟨s, hs, htext⟩ := List.mem_flatMap.1 (hother ▸ htext)
    obtain ⟨segment, -, hs⟩ := List.mem_flatMap.1 hs
    rw [← hlines]
    exact List.mem_flatMap.2 ⟨s, List.mem_of_mem_filter hs, htext⟩
  · rw [clausesOf, clausesOf, hother, ← hlines, thread_sections, thread_sections,
      filter_grouped horder]

/-- Code around data can be put together in front of the data, although it has the size of the data
and their address. -/
theorem interleaving_irrelevant_code_data :
    ∃ first second,
      assemble {} " cseg\nsize equ 2\n dw buf\n dseg\n org 10h\nbuf: ds size\n cseg\n nop" =
        .ok first ∧
      assemble {} " cseg\nsize equ 2\n dw buf\n cseg\n nop\n dseg\n org 10h\nbuf: ds size" =
        .ok second ∧
      first.memory = second.memory ∧
      (∀ a, first.origins.isOwned a = second.origins.isOwned a) ∧
      ∀ name, first.symbols.value? name = second.symbols.value? name := by
  obtain ⟨first, h⟩ := exists_of_isOk (x := assemble {}
    " cseg\nsize equ 2\n dw buf\n dseg\n org 10h\nbuf: ds size\n cseg\n nop")
    (by decide +kernel)
  obtain ⟨second, h'⟩ := exists_of_isOk (x := assemble {}
    " cseg\nsize equ 2\n dw buf\n cseg\n nop\n dseg\n org 10h\nbuf: ds size")
    (by decide +kernel)
  have horder : [Segment.code, .data, .absolute].Perm Segment.all := by decide
  exact ⟨first, second, h, h', interleaving_irrelevant (by decide +kernel) (by decide +kernel)
    horder (by decide +kernel) h h'⟩

end Assembly

end Z80
