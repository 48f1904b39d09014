import Z80.Proofs.Disassembly.Format
import Z80.Proofs.Disassembly.Lines
import Z80.Proofs.Disassembly.Spans

/-!
# The source text of a disassembly passes

The source text of a disassembly consists of its constants, an origin and its lines.  Each of these
portions passes through the assembler: the constants and labels are defined as their addresses, and
the lines write the bytes that they show.

## Main definitions

* `Z80.Disassembly.Line.texts`, `Z80.Disassembly.texts` — the lines of source text.
* `Z80.Disassembly.Line.Reassembles` — a line that is no instruction with two encodings.
* `Z80.Disassembly.Line.Holds` — a line that holds an instruction.

## Main results

* `Z80.Disassembly.source_eq_join` — the source text consists of these lines.
* `Z80.Disassembly.passage_constants`, `Z80.Disassembly.passage_origin` — constants and the origin
  pass.
* `Z80.Disassembly.Line.Stands.passage`, `Z80.Disassembly.CoversFrom.passage` — and so does a line,
  and all lines.
* `Z80.Disassembly.Shows.lines_source`, `Z80.Disassembly.Shows.passage` — the whole text passes.
-/

namespace Z80

open Source (IsPiece ReadsAs Statement statementChars)

/-- An instruction that is found in a buffer is decoded from its bytes. -/
lemma Buffer.standsIn_of_decode? {b : Buffer} {address : UInt16} {i : Instruction}
    (h : b.decode? address = some i) : i.StandsIn b.read := by
  obtain ⟨hdecode, rfl, -, hread⟩ := decode?_eq_some_iff.1 h
  exact ⟨hdecode, hread⟩

namespace Disassembly

variable {labels : Labels} {buffer : Buffer} {line : Line}

/-! ### Lines of text -/

/-- The lines of source text for a line of a disassembly. -/
def Line.texts (line : Line) : List String :=
  (line.label.map fun name => name ++ ":").toList ++
    ["        " ++ line.text ++ commentText line.comment]

/-- The lines of source text for a disassembly. -/
def texts (d : Disassembly) : List String :=
  d.constants.map constantText ++ (if d.constants.isEmpty then [] else [""]) ++
    ["        org " ++ Text.wordNumeral d.origin] ++ d.lines.flatMap Line.texts

/-- A line of a disassembly is written as its lines of source text. -/
lemma Line.source_eq_join (line : Line) :
    line.source = String.join (line.texts.map (· ++ "\n")) := by
  rw [← String.toList_inj, source, texts]
  cases line.label with
  | none => simp
  | some name => simp

/-- **A disassembly is written as its lines of source text.** -/
theorem source_eq_join (d : Disassembly) :
    d.source = String.join (d.texts.map (· ++ "\n")) := by
  have hconstants : d.constants.map (fun c => constantText c ++ "\n") =
      (d.constants.map constantText).map (· ++ "\n") := by
    rw [List.map_map]
    rfl
  have hlines : String.join (d.lines.map Line.source) =
      String.join ((d.lines.flatMap Line.texts).map (· ++ "\n")) := by
    induction d.lines with
    | nil => rfl
    | cons line lines ih =>
      rw [List.map_cons, List.flatMap_cons, List.map_append, String.join_append, ← ih,
        ← Line.source_eq_join, String.join_cons]
  rw [source, texts, hconstants, hlines]
  rw [← String.toList_inj]
  by_cases hnone : d.constants.isEmpty
  · simp [hnone]
  · simp [hnone]

/-! ### Constants and the origin -/

/-- The names of labels have no case. -/
lemma lower_of_isLabelName {name : String} (h : IsLabelName name) : Text.lower name = name := by
  rw [Text.lower, h.isName.lower, String.ofList_toList]

/-- The names of labels are not empty. -/
lemma toList_ne_nil_of_isLabelName {name : String} (h : IsLabelName name) : name.toList ≠ [] := by
  intro hnil
  obtain ⟨c, hc, -⟩ := h.isName.head
  rw [hnil] at hc
  simp at hc

/-- The numeral of a word is worth that word in every scope. -/
lemma evaluateWord_wordNumeral (scope : Expr.Scope) (w : UInt16) :
    Expr.evaluateWord scope (Text.wordNumeral w) = .ok w :=
  Expr.evaluateWord_eq_ok (Expr.evaluate_numeral scope (Text.isNumeral_wordNumeral w))

/-- The characters of a constant. -/
lemma toList_constantText (entry : String × UInt16) : (constantText entry).toList =
    entry.1.toList ++ ' ' :: 'e' :: 'q' :: 'u' :: ' ' :: (Text.wordNumeral entry.2).toList := by
  simp [constantText]

/-- **Constants pass**, and are defined as their addresses. -/
theorem passage_constants (label : UInt16 → Option String) (start : UInt16)
    {entries : List (String × UInt16)} (h : ∀ entry ∈ entries, IsLabelName entry.1) :
    Passage label (entries.map constantText) start start entries [] := by
  induction entries with
  | nil => exact .nil label start
  | cons entry entries ih =>
    have hname := h entry List.mem_cons_self
    have hreads := Source.readsAs_constant (toList_constantText entry)
      (isPiece_numeral (Text.isNumeral_wordNumeral entry.2)) hname.isName.isWordChar
      (toList_ne_nil_of_isLabelName hname)
    rw [String.ofList_toList, String.ofList_toList] at hreads
    have hdefines := Layout.defines_constant (lower_of_isLabelName hname)
      (fun scope => evaluateWord_wordNumeral scope entry.2) start
    have hfirst := passage_line hreads hdefines (Statement.leads_empty label start)
    exact hfirst.append (ih fun other hother => h other (List.mem_cons_of_mem _ hother))

/-- A line without anything passes. -/
lemma passage_blank (label : UInt16 → Option String) (start : UInt16) :
    Passage label [""] start start [] [] :=
  passage_line Source.readsAs_blank (Layout.defines_none start) (Statement.leads_empty label start)

/-- The line of an origin is read as an origin, indented or not. -/
lemma readsAs_origin {indent origin : String} {n width : Nat}
    (hindent : indent.toList = List.replicate width ' ') (h : Expr.IsNumeral origin.toList n) :
    ReadsAs (indent ++ ("org " ++ origin)) none (.origin origin) := by
  have hpieces : ∀ piece ∈ [origin.toList], IsPiece piece := by
    intro piece hpiece
    rw [List.mem_singleton.1 hpiece]
    exact isPiece_numeral h
  have hword : ∀ c ∈ ['o', 'r', 'g'], Expr.isWordChar c := List.all_eq_true.1 (by decide)
  have horg : ['o', 'r', 'g'] ≠ [] := by decide
  have htext : ("org " ++ origin).toList = statementChars ['o', 'r', 'g'] [origin.toList] := by
    simp [statementChars, Source.joined_singleton]
  have hline := ofText_indented htext hindent none hpieces hword horg
  rw [commentText, String.append_empty] at hline
  refine ⟨_, hline, rfl, ?_⟩
  have hne : origin.toList.isEmpty = false := by
    rw [List.isEmpty_eq_false_iff]
    exact (hpieces _ List.mem_cons_self).ne_nil
  rw [@Source.ofText_directive ['o', 'r', 'g'] _ hpieces hword .origin horg rfl rfl,
    Statement.ofDirective, Statement.oneOperand, Source.splitOperandChars_joined hpieces]
  simp only [hne, Bool.false_eq_true, if_false, String.ofList_toList]
  rfl

/-- **The origin leads to its address.** -/
theorem passage_origin (label : UInt16 → Option String) (start : UInt16) {w : UInt16}
    {indent origin : String} {width : Nat} (hindent : indent.toList = List.replicate width ' ')
    (h : Expr.IsNumeral origin.toList w.toNat) :
    Passage label [indent ++ ("org " ++ origin)] start w [] [] :=
  passage_line (readsAs_origin hindent h) (Layout.defines_none start)
    (Statement.leads_origin label start fun scope =>
      Expr.evaluateWord_eq_ok (Expr.evaluate_numeral scope h))

/-! ### Lines -/

/-- A line that holds no instruction with a second encoding, which the assembler would choose. -/
def Line.Reassembles (line : Line) (buffer : Buffer) : Prop :=
  line.isData = false → ∀ i : Instruction, buffer.decode? line.address = some i →
    i.descriptor.isDuplicate = false

/-- A line that holds an instruction of the buffer, written under labels `label` which are labels of
the trace, the target among them. -/
structure Line.Holds (line : Line) (labels : Labels) (buffer : Buffer) (i : Instruction)
    (label : UInt16 → Option String) : Prop where
  decode_eq : buffer.decode? line.address = some i
  standsIn : i.StandsIn buffer.read
  address_eq : i.address = line.address
  bytes_eq : line.bytes = i.bytes
  comment_eq : line.comment = none
  text_eq : line.text = i.text label
  find?_eq : ∀ (address : UInt16) (name : String), label address = some name →
    labels.find? address = some name
  isLabelling : IsLabelling label
  isSome_target : ∀ target, i.target? = some target → (label target).isSome

/-- A label in front of a line passes, and is defined as its address. -/
lemma passage_label (label : UInt16 → Option String) (start : UInt16) {name : String}
    (h : IsLabelName name) : Passage label [name ++ ":"] start start [(name, start)] [] := by
  have hreads := @Source.readsAs_label name.toList (name ++ ":") (by simp) h.isName.isWordChar
    (toList_ne_nil_of_isLabelName h)
  rw [String.ofList_toList] at hreads
  exact passage_line hreads (Layout.defines_label (lower_of_isLabelName h) start)
    (Statement.leads_empty label start)

namespace Line.Stands

variable (h : line.Stands labels buffer)

include h

/-- A line that is no data holds an instruction. -/
lemma exists_holds (hnumbered : labels.IsNumbered) (hdata : line.isData = false) :
    ∃ i label, line.Holds labels buffer i label := by
  rcases h.text_eq with ⟨htrue, -⟩ | ⟨-, hcomment, i, hdecode, hbytes, label, htext, hsome, htarget⟩
  · rw [htrue] at hdata
    simp at hdata
  · have hstands := Buffer.standsIn_of_decode? hdecode
    have haddress := Buffer.address_of_decode? hdecode
    exact ⟨i, label, hdecode, hstands, haddress, hbytes, hcomment, htext, hsome,
      fun address name hname => hnumbered.isLabelling address name (hsome address name hname),
      htarget⟩

/-- **The statement of a line passes**, and writes the bytes of the line. -/
theorem passage_text (hnumbered : labels.IsNumbered) (hreassembles : line.Reassembles buffer) :
    Passage labels.find? ["        " ++ line.text ++ commentText line.comment] line.address
      (line.address + UInt16.ofNat line.bytes.length) [] (cellsFrom line.address line.bytes) := by
  cases hdata : line.isData with
  | true =>
    rcases h.text_eq with ⟨-, htext, -⟩ | ⟨hfalse, -⟩
    · have hreads := readsAs_dataText h.ne_nil line.comment
      rw [← htext] at hreads
      exact passage_line hreads (Layout.defines_none _) (writes_bytes _ _ line.bytes).leads
    · rw [hfalse] at hdata
      simp at hdata
  | false =>
    obtain ⟨i, label, hholds⟩ := h.exists_holds hnumbered hdata
    have hreads := hholds.standsIn.readsAs hholds.isLabelling (.inr rfl)
    have hwrites := hholds.standsIn.writes (hreassembles hdata i hholds.decode_eq)
      hholds.isLabelling fun target hmem =>
        .inl (hholds.isSome_target target (hholds.standsIn.target?_of_relative hmem))
    have hleads := (hwrites.mono hholds.find?_eq).leads
    rw [hholds.text_eq, hholds.comment_eq, hholds.bytes_eq, ← hholds.address_eq]
    exact passage_line hreads (Layout.defines_none _) hleads

/-- **A line passes**, with its label. -/
theorem passage (hnumbered : labels.IsNumbered) (hreassembles : line.Reassembles buffer) :
    Passage labels.find? line.texts line.address
      (line.address + UInt16.ofNat line.bytes.length) (shown [line])
      (cellsFrom line.address line.bytes) := by
  have htext := h.passage_text hnumbered hreassembles
  rw [texts, shown]
  cases hlabel : line.label with
  | none => simpa [hlabel] using htext
  | some name =>
    have hfound : labels.find? line.address = some name := h.label_eq.symm.trans hlabel
    have hname := passage_label labels.find? line.address
      (hnumbered.isLabelling line.address name hfound)
    simpa [hlabel] using hname.append htext

/-- The texts of a line are on one line each. -/
lemma isOneLine (hnumbered : labels.IsNumbered) : ∀ s ∈ line.texts, Text.IsOneLine s.toList := by
  have hindent : Text.IsOneLine "        ".toList := by
    decide
  have htext : Text.IsOneLine (line.text ++ commentText line.comment).toList := by
    rw [String.toList_append]
    cases hdata : line.isData with
    | true =>
      rcases h.text_eq with ⟨-, htext, comment, hcomment⟩ | ⟨hfalse, -⟩
      · have hsign : Text.IsOneLine "  ; ".toList := by
          decide
        rw [htext, hcomment, commentText, String.toList_append]
        exact (isOneLine_dataText h.ne_nil).append (hsign.append (Text.isOneLine_asciiText comment))
      · rw [hfalse] at hdata
        simp at hdata
    | false =>
      obtain ⟨i, label, hholds⟩ := h.exists_holds hnumbered hdata
      rw [hholds.text_eq, hholds.comment_eq, commentText, String.toList_empty, List.append_nil]
      exact hholds.standsIn.isOneLine_text hholds.isLabelling
  intro s hs
  rw [texts, List.mem_append, Option.mem_toList, List.mem_singleton] at hs
  rcases hs with hname | rfl
  · obtain ⟨name, hlabel, rfl⟩ := Option.map_eq_some_iff.1 hname
    have hfound : labels.find? line.address = some name := h.label_eq.symm.trans hlabel
    have hword := (hnumbered.isLabelling line.address name hfound).isName.isWordChar
    have hcolon : Text.IsOneLine ":".toList := by
      decide
    rw [String.toList_append]
    exact (Text.isOneLine_of_isBlank fun c hc =>
      .inl (Expr.isBlank_of_isWordChar (hword c hc))).append hcolon
  · rw [String.append_assoc, String.toList_append]
    exact hindent.append htext

end Line.Stands

namespace CoversFrom

variable {off : Nat} {lines : List Line}

/-- The bytes of all lines are those of the buffer. -/
lemma flatMap_bytes (h : CoversFrom labels buffer off lines) :
    lines.flatMap Line.bytes =
      readBytes buffer.read (buffer.addressOf off) (buffer.size - off) := by
  induction h with
  | nil => rw [Nat.sub_self, List.flatMap_nil, readBytes]
  | @cons off line lines haddress hline hmore ih =>
    have hsplit : buffer.size - off =
        line.bytes.length + (buffer.size - (off + line.bytes.length)) := by
      have := hmore.le_size
      omega
    rw [List.flatMap_cons, ih, hsplit, readBytes_add, Buffer.addressOf_add, ← haddress,
      hline.bytes_eq]

/-- **All lines pass**, from the first to the end of the buffer. -/
theorem passage (h : CoversFrom labels buffer off lines) (hnumbered : labels.IsNumbered)
    (hreassembles : ∀ line ∈ lines, line.Reassembles buffer) :
    Passage labels.find? (lines.flatMap Line.texts) (buffer.addressOf off)
      (buffer.addressOf buffer.size) (shown lines)
      (cellsFrom (buffer.addressOf off) (lines.flatMap Line.bytes)) := by
  induction h with
  | nil => exact .nil _ _
  | @cons off line lines haddress hline hmore ih =>
    have hfirst := hline.passage hnumbered (hreassembles line List.mem_cons_self)
    have hrest := ih fun other hother => hreassembles other (List.mem_cons_of_mem _ hother)
    rw [Buffer.addressOf_add, ← haddress] at hrest
    have hshown : shown (line :: lines) = shown [line] ++ shown lines := by
      rw [shown, ← List.singleton_append, List.filterMap_append]
      rfl
    rw [hshown, List.flatMap_cons, List.flatMap_cons, cellsFrom_append, ← haddress]
    exact hfirst.append hrest

end CoversFrom

/-! ### The whole text -/

namespace Shows

variable {d : Disassembly} (h : d.Shows labels buffer)

include h

/-- Constants are labels. -/
lemma isLabelName_of_mem_constants {entry : String × UInt16} (hentry : entry ∈ d.constants) :
    IsLabelName entry.1 :=
  h.numbered.isLabelling entry.2 entry.1
    ((h.mem_names_iff entry).1 (List.mem_append_left _ hentry))

/-- **The lines of the source text** are those that it was put together from. -/
theorem lines_source : Text.lines d.source = d.texts := by
  rw [source_eq_join]
  refine Text.lines_join fun s hs => ?_
  have hnumeral : ∀ w, Text.IsOneLine (Text.wordNumeral w).toList := fun w =>
    Text.isOneLine_of_isBlank fun c hc =>
      .inl ((isPiece_numeral (Text.isNumeral_wordNumeral w)).isBlank_eq_false c hc)
  simp only [texts, List.mem_append] at hs
  rcases hs with ((hconstant | hblank) | horigin) | hline
  · obtain ⟨entry, hentry, rfl⟩ := List.mem_map.1 hconstant
    have hword := (h.isLabelName_of_mem_constants hentry).isName.isWordChar
    have hname : Text.IsOneLine entry.1.toList :=
      Text.isOneLine_of_isBlank fun c hc => .inl (Expr.isBlank_of_isWordChar (hword c hc))
    have hequ : Text.IsOneLine " equ ".toList := by
      decide
    rw [constantText, String.toList_append, String.toList_append]
    exact (hname.append hequ).append (hnumeral entry.2)
  · split at hblank
    · simp at hblank
    · rw [List.mem_singleton.1 hblank]
      decide
  · have horg : Text.IsOneLine "        org ".toList := by
      decide
    rw [List.mem_singleton.1 horigin, String.toList_append]
    exact horg.append (hnumeral d.origin)
  · obtain ⟨line, hmem, hs⟩ := List.mem_flatMap.1 hline
    exact (h.covers.exists_offset hmem).1.isOneLine h.numbered s hs

/-- **The source text of a disassembly passes**, and writes the bytes of the buffer. -/
theorem passage (hreassembles : ∀ line ∈ d.lines, line.Reassembles buffer) (start : UInt16) :
    Passage labels.find? d.texts start (buffer.addressOf buffer.size) d.names
      (cellsFrom buffer.base (readBytes buffer.read buffer.base buffer.size)) := by
  have hconstants := passage_constants labels.find? start fun entry hentry =>
    h.isLabelName_of_mem_constants hentry
  have hgap :
      Passage labels.find? (if d.constants.isEmpty then [] else [""]) start start [] [] := by
    split
    · exact .nil _ _
    · exact passage_blank _ _
  have hindent : "        ".toList = List.replicate 8 ' ' := by decide
  have horigin :=
    passage_origin labels.find? start hindent (Text.isNumeral_wordNumeral d.origin)
  have htext : "        " ++ ("org " ++ Text.wordNumeral d.origin) =
      "        org " ++ Text.wordNumeral d.origin := by
    rw [← String.append_assoc]
    rfl
  have hlines := h.covers.passage h.numbered hreassembles
  have hbase : buffer.addressOf 0 = buffer.base := UInt16.add_zero _
  rw [h.covers.flatMap_bytes, hbase, Nat.sub_zero] at hlines
  rw [htext, h.origin_eq] at horigin
  have hwhole := ((hconstants.append hgap).append horigin).append hlines
  rw [texts, names, h.origin_eq]
  simpa only [List.append_nil, List.nil_append] using hwhole

end Shows

end Disassembly

end Z80
