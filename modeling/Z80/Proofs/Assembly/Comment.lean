import Z80.Proofs.Assembly.Emission
import Z80.Proofs.Source.Fold

/-!
# Comments do not matter

Whatever is written behind a semicolon at the end of a line, quotes and colons included, the text is
assembled as without it, or refused for the same reason on the same line.  Only the listing shows
the line as it is written.  This asks that the semicolon is one: no literal may be open in front of
it, unless a comment has started already.

## Main definitions

* `Z80.Source.TakesComment` — whether a semicolon at the end of a line belongs to a comment.
* `Z80.PreparedLine.respell`, `Z80.Listing.Entry.respell` — another text in the place of a line.
* `Z80.Layout.respell`, `Z80.Image.respell`, `Z80.Assembly.respell` — the same among all lines.

## Main results

* `Z80.Source.stripComment_append_comment` — the line up to its comment.
* `Z80.Layout.readLines_respell`, `Z80.Image.writeLines_respell` — the two passes.
* `Z80.assemble_comment` — the assembly of a text with a comment more.

## Design

Neither pass looks at the text that is kept for the listing, so both commute with putting another
one in its place, for results and failures alike.  That the parts of the line are the same is used
once, where the line itself is read.
-/

namespace Z80

/-! ### The line -/

namespace Source

/-- Whether a semicolon at the end of a line starts a comment or stands in one: no literal is open
there, or a semicolon outside literals stands in front of it. -/
def TakesComment (line : List Char) : Prop :=
  IsClosed line ∨ (splitAtUnquoted? ';' line).isSome = true

variable {r : Reading} {d : Char} {cs before after : List Char}

/-- A text that is cut is cut there with more characters behind it. -/
lemma splitAtMark?_append_of_eq_some (h : splitAtMark? d (markedFrom r cs) = some (before, after))
    (more : List Char) :
    splitAtMark? d (markedFrom r (cs ++ more)) = some (before, after ++ more) := by
  induction cs generalizing r before with
  | nil => simp [markedFrom, splitAtMark?] at h
  | cons c cs ih =>
    rw [List.cons_append, markedFrom, splitAtMark?]
    rw [markedFrom, splitAtMark?] at h
    split at h
    · next hcut =>
      obtain ⟨rfl, rfl⟩ := Prod.mk.inj (Option.some.inj h)
      rw [if_pos hcut, map_fst_markedFrom, map_fst_markedFrom]
    · next hcut =>
      obtain ⟨⟨front, back⟩, hrest, heq⟩ := Option.map_eq_some_iff.1 h
      obtain ⟨rfl, rfl⟩ := Prod.mk.inj heq
      rw [if_neg hcut, ih hrest]
      rfl

/-- A text that is not cut is cut behind its end, if no literal is open there. -/
lemma splitAtMark?_append_of_eq_none (h : splitAtMark? d (markedFrom r cs) = none)
    (hclosed : (r.behind cs).quote = none) (hplain : d ≠ '\x22' ∧ d ≠ '\x27')
    (more : List Char) :
    splitAtMark? d (markedFrom r (cs ++ d :: more)) = some (cs, more) := by
  induction cs generalizing r with
  | nil =>
    have hbare : IsBare [] := by simp [IsBare]
    exact splitAtMark?_append hclosed hbare List.not_mem_nil hplain
  | cons c cs ih =>
    rw [List.cons_append, markedFrom, splitAtMark?]
    rw [markedFrom, splitAtMark?] at h
    split at h
    · simp at h
    · next hcut =>
      rw [if_neg hcut, ih (Option.map_eq_none_iff.1 h) hclosed]
      rfl

/-- **A comment is cut off**, whatever it says. -/
theorem stripComment_append_comment {line : List Char} (h : TakesComment line)
    (comment : List Char) : stripComment (line ++ ';' :: comment) = stripComment line := by
  have hplain : ';' ≠ '\x22' ∧ ';' ≠ '\x27' := by decide
  unfold stripComment
  cases hcut : splitAtUnquoted? ';' line with
  | some parts =>
    obtain ⟨before, after⟩ := parts
    have hmore : splitAtUnquoted? ';' (line ++ ';' :: comment) =
        some (before, after ++ ';' :: comment) :=
      splitAtMark?_append_of_eq_some hcut (';' :: comment)
    rw [hmore]
  | none =>
    have hclosed : IsClosed line := h.resolve_right (by simp [hcut])
    have hmore : splitAtUnquoted? ';' (line ++ ';' :: comment) = some (line, comment) :=
      splitAtMark?_append_of_eq_none hcut hclosed hplain comment
    rw [hmore]

/-- A semicolon in a literal starts none, be the literal closed or not. -/
example : stripComment "db 'a;b' ;'".toList = "db 'a;b' ".toList ∧
    stripComment "db 'a ;b".toList = "db 'a ;b".toList := by
  decide +kernel

/-- A line has the same parts with a comment. -/
lemma ofText_append_comment {line : List Char} (h : TakesComment line) (comment : List Char) :
    Line.ofText (String.ofList (line ++ ';' :: comment)) = Line.ofText (String.ofList line) := by
  rw [Line.ofText, Line.ofText, String.toList_ofList, String.toList_ofList,
    stripComment_append_comment h]

/-- What is left of a comment without a carriage return is a comment. -/
lemma exists_dropReturn_append (line comment : List Char) :
    ∃ rest, Text.dropReturn (line ++ ';' :: comment) = line ++ ';' :: rest := by
  unfold Text.dropReturn
  split
  · next hreturn =>
    cases comment with
    | nil => simp at hreturn
    | cons c comment =>
      rw [List.dropLast_append_of_ne_nil (by simp)]
      exact ⟨_, rfl⟩
  · exact ⟨comment, rfl⟩

/-- A carriage return at the end of a line is a blank. -/
lemma trimEnd_dropReturn (cs : List Char) :
    Text.trimEnd (Text.dropReturn cs) = Text.trimEnd cs := by
  unfold Text.dropReturn
  split
  · next hreturn =>
    have hblank : Text.isBlank '\r' = true := by decide
    conv_rhs => rw [← List.dropLast_append_getLast? '\r' hreturn, trimEnd_concat, if_pos hblank]
  · rfl

end Source

/-! ### Another text in the place of a line -/

/-- The line with another text if it has the given number. -/
def PreparedLine.respell (number : Nat) (text : String) (line : PreparedLine) : PreparedLine :=
  if line.number = number then { line with source := text } else line

/-- The entry with another text if it is that of the line with the given number. -/
def Listing.Entry.respell (number : Nat) (text : String) (entry : Listing.Entry) : Listing.Entry :=
  if entry.line = number then { entry with source := text } else entry

/-- The layout with another text for the line with the given number. -/
def Layout.respell (number : Nat) (text : String) (layout : Layout) : Layout :=
  { layout with lines := layout.lines.map (·.respell number text) }

/-- The image with another text for the line with the given number. -/
def Image.respell (number : Nat) (text : String) (image : Image) : Image :=
  { image with entries := image.entries.map (·.respell number text) }

/-- The assembly with another text for the line with the given number in its listing. -/
def Assembly.respell (number : Nat) (text : String) (assembly : Assembly) : Assembly :=
  { assembly with
    listing := ⟨assembly.listing.width, assembly.listing.entries.map (·.respell number text)⟩ }

namespace PreparedLine

variable (number : Nat) (text : String) (line : PreparedLine)

@[simp]
lemma number_respell : (line.respell number text).number = line.number := by
  unfold respell
  split <;> rfl

@[simp]
lemma statement_respell : (line.respell number text).statement = line.statement := by
  unfold respell
  split <;> rfl

/-- A line is listed with the text that it has. -/
lemma respell_entry (address : Option UInt16) (bytes : List UInt8) (remark : Option String) :
    Listing.Entry.respell number text ⟨line.number, address, bytes, line.source, remark⟩ =
      ⟨line.number, address, bytes, (line.respell number text).source, remark⟩ := by
  unfold respell Listing.Entry.respell
  split <;> rfl

end PreparedLine

/-! ### The first pass -/

namespace Layout

variable {number : Nat} {spelling : String}

/-- No lines are the same with another text. -/
@[simp]
lemma respell_blank (active : Segment) :
    (blank active).respell number spelling = blank active := by
  simp [respell, blank]

/-- A name is defined whatever the lines are. -/
lemma name_respell (layout : Layout) (line : Nat) (kind : Symbol.Kind) (name : String)
    (value : UInt16) :
    (layout.respell number spelling).name line kind name value =
      (layout.name line kind name value).map (·.respell number spelling) := by
  unfold Layout.name
  have hsymbols : (layout.respell number spelling).symbols = layout.symbols := rfl
  rw [hsymbols]
  split <;> rfl

/-- The name of a line is defined whatever the lines are. -/
lemma define_respell (layout : Layout) (line : Nat) (definition : Option Source.Definition) :
    (layout.respell number spelling).define line definition =
      (layout.define line definition).map (·.respell number spelling) := by
  cases definition with
  | none => rfl
  | some definition =>
    cases definition with
    | label name => exact name_respell layout line .label name _
    | constant name text =>
      exact bind_congr_map fun value => name_respell layout line .constant name value

/-- A statement is placed whatever the lines are. -/
lemma place_respell (layout : Layout) (statement : Source.Statement) :
    (layout.respell number spelling).place statement =
      (layout.place statement).map (·.respell number spelling) := by
  cases statement with
  | empty | stop | segment | bytes | words => rfl
  | origin text | space text => exact bind_congr_map fun _ => rfl
  | instruction word texts =>
    simp only [place]
    have hscope : (layout.respell number spelling).scope = layout.scope := rfl
    rw [hscope]
    split <;> rfl

/-- The line that is kept is the one with the other text. -/
lemma keep_respell (layout : Layout) (line : PreparedLine) :
    (layout.respell number spelling).keep (line.respell number spelling) =
      (layout.keep line).respell number spelling := by
  simp only [keep, respell, Array.map_push]

/-- **A line is read alike** if the text has the same parts, and is the one to be listed. -/
theorem readLine_respell (layout : Layout) {line : Nat} {text text' : String}
    (hparts : Source.Line.ofText text' = Source.Line.ofText text)
    (hlisted : ∀ statement,
      PreparedLine.respell number spelling
          ⟨line, String.ofList (Text.trimEnd text.toList), statement⟩ =
        ⟨line, String.ofList (Text.trimEnd text'.toList), statement⟩) :
    (layout.respell number spelling).readLine line text' =
      (layout.readLine line text).map (Prod.map (·.respell number spelling) id) := by
  unfold readLine
  rw [hparts]
  refine bind_congr_map fun parts => ?_
  rw [define_respell]
  refine map_bind_congr_map fun named => bind_congr_map fun statement => ?_
  simp only [← hlisted statement, keep_respell, place_respell]
  exact map_bind_congr_map fun after => rfl

/-- Another line is read alike. -/
lemma readLine_respell_of_ne (layout : Layout) {line : Nat} (hne : line ≠ number)
    (text : String) :
    (layout.respell number spelling).readLine line text =
      (layout.readLine line text).map (Prod.map (·.respell number spelling) id) :=
  layout.readLine_respell rfl fun _ => if_neg hne

/-- Lines are read alike if the first one is. -/
lemma readLines_cons_respell (layout : Layout) {line : Nat} {text text' : String}
    {more more' : List String}
    (hline : (layout.respell number spelling).readLine line text' =
      (layout.readLine line text).map (Prod.map (·.respell number spelling) id))
    (hmore : ∀ after : Layout, (after.respell number spelling).readLines (line + 1) more' =
      (after.readLines (line + 1) more).map (·.respell number spelling)) :
    (layout.respell number spelling).readLines line (text' :: more') =
      (layout.readLines line (text :: more)).map (·.respell number spelling) := by
  rw [readLines, readLines, hline]
  cases layout.readLine line text with
  | error fault => rfl
  | ok parts =>
    obtain ⟨after, statement⟩ := parts
    cases statement with
    | stop => rfl
    | empty | segment | bytes | words | origin | space | instruction => exact hmore after

/-- Lines behind the one with the other text are read alike. -/
lemma readLines_respell_of_lt (layout : Layout) {line : Nat} (hlt : number < line)
    (texts : List String) :
    (layout.respell number spelling).readLines line texts =
      (layout.readLines line texts).map (·.respell number spelling) := by
  induction texts generalizing layout line with
  | nil => rfl
  | cons text more ih =>
    exact readLines_cons_respell layout
      (layout.readLine_respell_of_ne (Nat.ne_of_gt hlt) text)
      fun after => ih after (Nat.lt_succ_of_lt hlt)

/-- **The first pass reads lines alike** if one of them is replaced by another one with the same
parts. -/
theorem readLines_respell (layout : Layout) {line : Nat} {before behind : List String}
    {text text' : String} (hnumber : number = line + before.length)
    (hspelling : spelling = String.ofList (Text.trimEnd text'.toList))
    (hparts : Source.Line.ofText text' = Source.Line.ofText text) :
    (layout.respell number spelling).readLines line (before ++ text' :: behind) =
      (layout.readLines line (before ++ text :: behind)).map (·.respell number spelling) := by
  induction before generalizing layout line with
  | nil =>
    obtain rfl : number = line := hnumber
    refine readLines_cons_respell layout (layout.readLine_respell hparts fun statement => ?_)
      fun after => after.readLines_respell_of_lt (Nat.lt_succ_self _) behind
    rw [hspelling]
    exact if_pos rfl
  | cons first before ih =>
    rw [List.length_cons] at hnumber
    exact readLines_cons_respell layout (layout.readLine_respell_of_ne (by omega) first)
      fun after => ih after (by omega)

end Layout

/-! ### The second pass -/

namespace Image

variable {number : Nat} {spelling : String}

/-- No entries are the same with another text. -/
@[simp]
lemma respell_blank (active : Segment) :
    (blank active).respell number spelling = blank active := by
  simp [respell, blank]

/-- An entry is listed with the other text if it is that of the line. -/
lemma list_respell (image : Image) (entry : Listing.Entry) :
    (image.respell number spelling).list (entry.respell number spelling) =
      (image.list entry).respell number spelling := by
  simp only [list, respell, Array.map_push]

/-- Bytes are written whatever was listed. -/
lemma emit_respell (image : Image) (line : Nat) (bytes : List UInt8) :
    (image.respell number spelling).emit line bytes =
      (image.emit line bytes).map (·.respell number spelling) := by
  obtain ⟨segments, memory, origins, entries⟩ := image
  simp only [respell, emit]
  split <;> rfl

/-- A statement moves the counters whatever was listed. -/
lemma direct_respell (image : Image) (scope : Expr.Scope) (statement : Source.Statement) :
    (image.respell number spelling).direct scope statement =
      (image.direct scope statement).map (Prod.map (·.respell number spelling) id) := by
  cases statement with
  | empty | stop | segment | bytes | words | space | instruction => rfl
  | origin text => exact bind_congr_map fun _ => rfl

/-- **A line is written alike** whatever text is kept for the listing. -/
theorem writeLine_respell (image : Image) (symbols : SymbolTable) (line : PreparedLine) :
    (image.respell number spelling).writeLine symbols (line.respell number spelling) =
      (image.writeLine symbols line).map (·.respell number spelling) := by
  unfold writeLine
  have hsegments : (image.respell number spelling).segments = image.segments := rfl
  simp only [hsegments, PreparedLine.statement_respell, PreparedLine.number_respell,
    direct_respell, emit_respell]
  refine bind_congr_map fun emission? => ?_
  cases emission? with
  | none =>
    refine map_bind_congr_map fun moved => ?_
    simp only [Prod.map, ← line.respell_entry, list_respell]
    rfl
  | some emission =>
    refine map_bind_congr_map fun written => ?_
    simp only [← line.respell_entry, list_respell]
    rfl

/-- **The second pass writes lines alike** whatever texts are kept for the listing. -/
theorem writeLines_respell (image : Image) (symbols : SymbolTable) (lines : List PreparedLine) :
    (image.respell number spelling).writeLines symbols (lines.map (·.respell number spelling)) =
      (image.writeLines symbols lines).map (·.respell number spelling) := by
  induction lines generalizing image with
  | nil => rfl
  | cons line more ih =>
    rw [List.map_cons, writeLines, writeLines, writeLine_respell, PreparedLine.number_respell]
    cases image.writeLine symbols line with
    | error fault => rfl
    | ok next => exact ih next

end Image

/-! ### Assemblies -/

/-- A text is assembled alike if one of its lines is replaced by another one with the same parts. -/
lemma assemble_respell (options : Assembly.Options) {source source' text text' : String}
    {before behind : List String} {number : Nat} {spelling : String}
    (hlines : Text.lines source = before ++ text :: behind)
    (hlines' : Text.lines source' = before ++ text' :: behind)
    (hparts : Source.Line.ofText text' = Source.Line.ofText text)
    (hnumber : number = before.length + 1)
    (hspelling : spelling = String.ofList (Text.trimEnd text'.toList)) :
    assemble options source' = (assemble options source).map (·.respell number spelling) := by
  have hlayout : Layout.ofSource options.segment source' =
      (Layout.ofSource options.segment source).map (·.respell number spelling) := by
    rw [Layout.ofSource, Layout.ofSource, hlines, hlines']
    have key := @Layout.readLines_respell number spelling (.blank options.segment) 1 before behind
      text text' (hnumber.trans (Nat.add_comm ..)) hspelling hparts
    rwa [Layout.respell_blank] at key
  have himage (layout : Layout) :
      Image.ofLayout options.segment (layout.respell number spelling) =
        (Image.ofLayout options.segment layout).map (·.respell number spelling) := by
    have hlist : (layout.respell number spelling).lines.toList =
        layout.lines.toList.map (·.respell number spelling) := Array.toList_map
    rw [Image.ofLayout, Image.ofLayout, hlist]
    have key := @Image.writeLines_respell number spelling (.blank options.segment) layout.symbols
      layout.lines.toList
    rwa [Image.respell_blank] at key
  rw [assemble, assemble, hlayout]
  cases Layout.ofSource options.segment source with
  | error failure => rfl
  | ok layout =>
    simp only [Except.map, himage]
    cases Image.ofLayout options.segment layout with
    | error failure => rfl
    | ok image => simp [Assembly.respell, Image.respell, Layout.respell]

/-- **Comments do not matter.**  Each line of a text has its place there, with characters in front
of it and behind it.  If no literal is open at its end, or if it has a comment already, a semicolon
and any characters without a line feed may be written behind the line: the text fails as before,
with the same fault on the same line, or is assembled as before, and only the entry of this line in
the listing has another text.

**Proof sketch.** The line has the same parts, because it is the same up to its comment; all other
lines are the same.  So both passes go through the same statements, and none of them looks at the
text of a line. -/
theorem assemble_comment (options : Assembly.Options) {source line : String} {k : Nat}
    (hline : (Text.lines source)[k]? = some line) (hcomment : Source.TakesComment line.toList) :
    ∃ front back : String, source = front ++ line ++ back ∧
      Text.IsLineAt front.toList line.toList back.toList ∧ (Text.lines front).length = k ∧
      ∀ comment : String, '\n' ∉ comment.toList →
        assemble options (front ++ line ++ ";" ++ comment ++ back) =
          (assemble options source).map (·.respell (k + 1)
            (String.ofList (Text.trimEnd (line ++ ";" ++ comment).toList))) := by
  rw [Text.lines, List.getElem?_map, Option.map_eq_some_iff] at hline
  obtain ⟨chars, hchars, rfl⟩ := hline
  obtain ⟨front, back, hsource, hplace, hcount⟩ := Text.exists_isLineAt hchars
  obtain ⟨behind, hlines, hadded⟩ := hplace.linesFrom_eq
  rw [String.toList_ofList] at hcomment
  refine ⟨String.ofList front, String.ofList back, ?_, ?_, ?_, fun comment hfeed => ?_⟩
  · rw [← String.ofList_append, ← String.ofList_append, ← hsource, String.ofList_toList]
  · simpa only [String.toList_ofList] using hplace
  · rw [Text.lines, List.length_map, String.toList_ofList, hcount]
  · obtain ⟨text, htext, hcases⟩ := hadded (';' :: comment.toList) (by simp [hfeed])
    -- the line feed may take a carriage return of the comment along
    have hrest : (∃ rest, text = chars ++ ';' :: rest) ∧
        Text.trimEnd text = Text.trimEnd (chars ++ ';' :: comment.toList) := by
      rcases hcases with rfl | rfl
      · exact ⟨⟨_, rfl⟩, rfl⟩
      · exact ⟨Source.exists_dropReturn_append chars comment.toList, Source.trimEnd_dropReturn _⟩
    obtain ⟨⟨rest, rfl⟩, htrim⟩ := hrest
    have hjoined : (String.ofList front ++ String.ofList chars ++ ";" ++ comment ++
        String.ofList back).toList = front ++ chars ++ ';' :: comment.toList ++ back := by simp
    have hlines' : Text.lines source = (Text.linesFrom [] front).map String.ofList ++
        String.ofList chars :: behind.map String.ofList := by
      rw [Text.lines, hsource, hlines, List.map_append, List.map_cons]
    refine assemble_respell options hlines' ?_ (Source.ofText_append_comment hcomment rest) ?_ ?_
    · rw [Text.lines, hjoined, htext, List.map_append, List.map_cons]
    · rw [List.length_map, hcount]
    · rw [String.toList_ofList, htrim]
      simp

/-- A line with a label, behind which an apostrophe is no quote, in a text with literals. -/
theorem assemble_comment_shadow :
    let source := " ld a,';'\nx: ex af,af'\r\n db \"a;b\"\n jr x"
    (Text.lines source)[1]? = some "x: ex af,af'" ∧
      Source.TakesComment "x: ex af,af'".toList ∧
      ∃ front back : String, source = front ++ "x: ex af,af'" ++ back ∧
        Text.IsLineAt front.toList "x: ex af,af'".toList back.toList ∧
        (Text.lines front).length = 1 ∧
        ∀ comment : String, '\n' ∉ comment.toList →
          assemble {} (front ++ "x: ex af,af'" ++ ";" ++ comment ++ back) =
            (assemble {} source).map (·.respell (1 + 1)
              (String.ofList (Text.trimEnd ("x: ex af,af'" ++ ";" ++ comment).toList))) := by
  intro source
  have hline : (Text.lines source)[1]? = some "x: ex af,af'" := by decide +kernel
  have hcomment : Source.TakesComment "x: ex af,af'".toList :=
    .inl (by unfold Source.IsClosed; decide +kernel)
  exact ⟨hline, hcomment, assemble_comment {} hline hcomment⟩

end Z80
