import Mathlib.Data.List.Basic
import Mathlib.Data.List.TakeWhile
import Z80.Text.Ascii
import Z80.Text.Blank
import Z80.Text.Lines

/-!
# Lines and blanks of a text that is put together

Texts that end with line feeds are the lines of what they form together, and blanks around a text
are trimmed off again.

## Main definitions

* `Z80.Text.IsOneLine` — characters without line ends.
* `Z80.Text.IsLineAt` — a line between what stands in front of it and behind it.
* `Z80.Text.IsTrimmed` — the characters of a text without blanks at its ends.

## Main results

* `Z80.Text.lines_join` — the lines of a text are the texts that it was put together from.
* `Z80.Text.lines_join_append` — its last line needs no line feed.
* `Z80.Text.exists_isLineAt` — each line of a text has its place there.
* `Z80.Text.IsLineAt.linesFrom_eq` — what becomes of a line with further characters at its end.
* `Z80.Text.trim_append` — a text between blanks is trimmed to that text.
* `Z80.Text.exists_eq_append_trim` — a text is its trimmed one between blanks.
-/

namespace Z80.Text

/-! ### Lines -/

/-- Characters without a line feed belong to the line that is being read. -/
lemma linesFrom_append {piece : List Char} (h : '\n' ∉ piece) (read rest : List Char) :
    linesFrom read (piece ++ '\n' :: rest) =
      dropReturn (read.reverse ++ piece) :: linesFrom [] rest := by
  induction piece generalizing read with
  | nil => rw [List.nil_append, linesFrom, if_pos rfl, List.append_nil]
  | cons c piece ih =>
    rw [List.mem_cons, not_or] at h
    have hne : c ≠ '\n' := fun heq => h.1 heq.symm
    rw [List.cons_append, linesFrom, if_neg hne, ih h.2, List.reverse_cons, List.append_assoc]
    rfl

/-- Characters among which there is no line end. -/
def IsOneLine (cs : List Char) : Prop :=
  ∀ c ∈ cs, c ≠ '\n' ∧ c ≠ '\r'

instance (cs : List Char) : Decidable (IsOneLine cs) :=
  decidable_of_iff (cs.all fun c => decide (c ≠ '\n' ∧ c ≠ '\r'))
    (by simp only [IsOneLine, List.all_eq_true, decide_eq_true_eq])

lemma IsOneLine.append {cs ds : List Char} (hcs : IsOneLine cs) (hds : IsOneLine ds) :
    IsOneLine (cs ++ ds) :=
  fun c hc => (List.mem_append.1 hc).elim (hcs c) (hds c)

/-- Line ends are blanks, but the blank itself is none. -/
lemma isOneLine_of_isBlank {cs : List Char} (h : ∀ c ∈ cs, isBlank c = false ∨ c = ' ') :
    IsOneLine cs := by
  intro c hc
  rcases h c hc with hblank | rfl
  · constructor
    all_goals
      rintro rfl
      exact absurd hblank (by decide)
  · decide

/-- The characters that stand for bytes are on one line. -/
lemma isOneLine_asciiText (bytes : List UInt8) : IsOneLine (asciiText bytes).toList := by
  rw [asciiText, String.toList_ofList]
  intro c hc
  obtain ⟨b, -, rfl⟩ := List.mem_map.1 hc
  have hvisible : ∀ n < 127, 32 ≤ n → Char.ofNat n ≠ '\n' ∧ Char.ofNat n ≠ '\r' := by decide
  by_cases hprintable : isPrintable b
  · have hrange := hprintable
    rw [isPrintable, Bool.and_eq_true, decide_eq_true_eq, decide_eq_true_eq,
      UInt8.le_iff_toNat_le, UInt8.le_iff_toNat_le] at hrange
    rw [if_pos hprintable]
    exact hvisible b.toNat (Nat.lt_succ_of_le hrange.2) hrange.1
  · rw [if_neg hprintable]
    decide

/-- Texts with a line feed behind each are read one after the other. -/
lemma linesFrom_join {texts : List String} (h : ∀ s ∈ texts, IsOneLine s.toList)
    (rest : List Char) :
    linesFrom [] ((String.join (texts.map (· ++ "\n"))).toList ++ rest) =
      texts.map String.toList ++ linesFrom [] rest := by
  induction texts with
  | nil => rw [List.map_nil, String.join_nil, String.toList_empty, List.nil_append, List.map_nil,
      List.nil_append]
  | cons s texts ih =>
    have hline := h s List.mem_cons_self
    have hfeed : '\n' ∉ s.toList := fun hmem => (hline _ hmem).1 rfl
    have hreturn : s.toList.getLast? ≠ some '\r' :=
      fun hlast => (hline _ (List.mem_of_mem_getLast? hlast)).2 rfl
    have hrest := ih fun t ht => h t (List.mem_cons_of_mem _ ht)
    have hchars : (String.join ((s :: texts).map (· ++ "\n"))).toList ++ rest =
        s.toList ++ '\n' :: ((String.join (texts.map (· ++ "\n"))).toList ++ rest) := by
      simp
    rw [hchars, linesFrom_append hfeed, hrest, List.reverse_nil, List.nil_append, dropReturn,
      if_neg hreturn, List.map_cons, List.cons_append]

/-- Without a line feed all that is read is one line. -/
lemma linesFrom_eq_singleton {read rest : List Char} (h : '\n' ∉ rest)
    (hne : read.reverse ++ rest ≠ []) : linesFrom read rest = [read.reverse ++ rest] := by
  induction rest generalizing read with
  | nil =>
    cases read with
    | nil => simp at hne
    | cons c read => rw [linesFrom, List.append_nil]
  | cons c rest ih =>
    rw [List.mem_cons, not_or] at h
    rw [linesFrom, if_neg (Ne.symm h.1), ih h.2 (by simp)]
    simp

/-- **The lines of a text are the texts that it was put together from**, each with a line feed
behind it. -/
theorem lines_join {texts : List String} (h : ∀ s ∈ texts, IsOneLine s.toList) :
    lines (String.join (texts.map (· ++ "\n"))) = texts := by
  have key := linesFrom_join h []
  rw [List.append_nil, linesFrom, List.append_nil] at key
  rw [lines, key, List.map_map]
  exact List.map_id'' (fun s => String.ofList_toList) texts

/-- **The last line of a text needs no line feed behind it**, unless it is empty. -/
theorem lines_join_append {texts : List String} {last : String}
    (h : ∀ s ∈ texts, IsOneLine s.toList) (hlast : IsOneLine last.toList)
    (hne : last.toList ≠ []) :
    lines (String.join (texts.map (· ++ "\n")) ++ last) = texts ++ [last] := by
  have hfeed : '\n' ∉ last.toList := fun hmem => (hlast _ hmem).1 rfl
  have hread : linesFrom [] last.toList = [last.toList] :=
    linesFrom_eq_singleton hfeed (by simpa using hne)
  have hback : texts.map (String.ofList ∘ String.toList) = texts :=
    List.map_id'' (fun s => String.ofList_toList) texts
  rw [lines, String.toList_append, linesFrom_join h, hread, List.map_append, List.map_map, hback,
    List.map_cons, List.map_nil, String.ofList_toList]

/-! ### A line in its place -/

/-- Whether characters are a line of a text, between those in front of it and those behind it.
Whole lines stand in front; behind it stand its end and further lines, or nothing.  A carriage
return right in front of the line feed belongs to the end. -/
structure IsLineAt (front line back : List Char) : Prop where
  feed_front : ∀ c ∈ front.getLast?, c = '\n'
  feed_notMem : '\n' ∉ line
  line_end : (back = [] ∧ line ≠ []) ∨ (∃ rest, back = '\n' :: rest ∧ line.getLast? ≠ some '\r') ∨
    ∃ rest, back = '\r' :: '\n' :: rest

/-- One carriage return is dropped. -/
lemma dropReturn_concat (cs : List Char) : dropReturn (cs ++ ['\r']) = cs := by
  simp [dropReturn]

/-- Lines behind a line feed end as they do, or with that line feed. -/
lemma getLast?_append_feed (piece more : List Char) :
    (piece ++ '\n' :: more).getLast? = some (more.getLast?.getD '\n') := by
  rw [List.getLast?_append, List.getLast?_cons]
  rfl

/-- Lines that end with a line feed are read in front of the others. -/
lemma linesFrom_append_of_feed {front : List Char} (h : ∀ c ∈ front.getLast?, c = '\n')
    (rest : List Char) :
    linesFrom [] (front ++ rest) = linesFrom [] front ++ linesFrom [] rest := by
  induction hlength : front.length using Nat.strongRecOn generalizing front with
  | ind n ih =>
    subst hlength
    by_cases hnil : front = []
    · subst hnil
      rw [linesFrom]
      rfl
    · have hlast := List.getLast?_eq_some_getLast hnil
      have hmem : '\n' ∈ front := h _ hlast ▸ List.getLast_mem hnil
      obtain ⟨piece, more, rfl, hpiece⟩ := List.eq_append_cons_of_mem hmem
      have hmore : ∀ c ∈ more.getLast?, c = '\n' := by
        intro c hc
        refine h c ?_
        rw [getLast?_append_feed, hc]
        rfl
      rw [List.append_assoc, List.cons_append, linesFrom_append hpiece, linesFrom_append hpiece,
        ih more.length (by simp; omega) hmore rfl, List.cons_append]

/-- **A line with further characters at its end** stays one line, and all other lines are as they
were.  If its end is a line feed only, a carriage return among these characters may get part of the
end. -/
theorem IsLineAt.linesFrom_eq {front line back : List Char} (h : IsLineAt front line back) :
    ∃ behind, linesFrom [] (front ++ line ++ back) = linesFrom [] front ++ line :: behind ∧
      ∀ added, '\n' ∉ added → ∃ text,
        linesFrom [] (front ++ line ++ added ++ back) = linesFrom [] front ++ text :: behind ∧
          (text = line ++ added ∨ text = dropReturn (line ++ added)) := by
  have hfront (rest : List Char) := linesFrom_append_of_feed h.feed_front rest
  have hfeed {added : List Char} (hadded : '\n' ∉ added) : '\n' ∉ line ++ added :=
    fun hmem => (List.mem_append.1 hmem).elim h.feed_notMem hadded
  simp only [List.append_assoc, hfront]
  rcases h.line_end with ⟨rfl, hne⟩ | ⟨rest, rfl, hreturn⟩ | ⟨rest, rfl⟩
  · refine ⟨[], ?_, fun added hadded => ⟨line ++ added, ?_, .inl rfl⟩⟩
    · rw [List.append_nil, linesFrom_eq_singleton h.feed_notMem (by simpa using hne)]
      rfl
    · rw [List.append_nil, linesFrom_eq_singleton (hfeed hadded) (by simp [hne])]
      rfl
  · refine ⟨linesFrom [] rest, ?_, fun added hadded => ⟨dropReturn (line ++ added), ?_, .inr rfl⟩⟩
    · rw [linesFrom_append h.feed_notMem, List.reverse_nil, List.nil_append, dropReturn,
        if_neg hreturn]
    · rw [← List.append_assoc, linesFrom_append (hfeed hadded), List.reverse_nil, List.nil_append]
  · -- the carriage return is there whatever is in front of it
    have hline {piece : List Char} (hpiece : '\n' ∉ piece) :
        linesFrom [] (piece ++ '\r' :: '\n' :: rest) = piece :: linesFrom [] rest := by
      have hsplit : piece ++ '\r' :: '\n' :: rest = (piece ++ ['\r']) ++ '\n' :: rest := by simp
      rw [hsplit, linesFrom_append (by simpa using hpiece), List.reverse_nil, List.nil_append,
        dropReturn_concat]
    refine ⟨linesFrom [] rest, ?_, fun added hadded => ⟨line ++ added, ?_, .inl rfl⟩⟩
    · rw [hline h.feed_notMem]
    · rw [← List.append_assoc, hline (hfeed hadded)]

/-- The first line of a text has its place at the start. -/
lemma isLineAt_first {piece : List Char} (h : '\n' ∉ piece) (more : List Char) :
    ∃ back, piece ++ '\n' :: more = [] ++ dropReturn piece ++ back ∧
      IsLineAt [] (dropReturn piece) back := by
  unfold dropReturn
  split
  · next hreturn =>
    have hpiece := List.dropLast_append_getLast? '\r' hreturn
    refine ⟨'\r' :: '\n' :: more, ?_, by simp, ?_, .inr (.inr ⟨more, rfl⟩)⟩
    · conv_lhs => rw [← hpiece]
      simp
    · exact fun hmem => h (List.dropLast_subset piece hmem)
  · next hreturn => exact ⟨'\n' :: more, rfl, by simp, h, .inr (.inl ⟨more, rfl, hreturn⟩)⟩

/-- **Each line of a text has its place there**, behind as many lines as its number says.

**Proof sketch.** Induction on the text.  Up to its first line feed it is the first line, and the
other lines are those of the text behind. -/
theorem exists_isLineAt {cs line : List Char} {k : Nat} (h : (linesFrom [] cs)[k]? = some line) :
    ∃ front back, cs = front ++ line ++ back ∧ IsLineAt front line back ∧
      (linesFrom [] front).length = k := by
  induction hlength : cs.length using Nat.strongRecOn generalizing cs k with
  | ind n ih =>
    subst hlength
    by_cases hmem : '\n' ∈ cs
    · obtain ⟨piece, more, rfl, hpiece⟩ := List.eq_append_cons_of_mem hmem
      rw [linesFrom_append hpiece, List.reverse_nil, List.nil_append] at h
      cases k with
      | zero =>
        obtain rfl : dropReturn piece = line := by simpa using h
        obtain ⟨back, hsplit, hplace⟩ := isLineAt_first hpiece more
        exact ⟨[], back, hsplit, hplace, by rw [linesFrom]; rfl⟩
      | succ k =>
        rw [List.getElem?_cons_succ] at h
        obtain ⟨front, back, rfl, hline, hcount⟩ := ih more.length (by simp; omega) h rfl
        have hfeed : ∀ c ∈ (piece ++ '\n' :: front).getLast?, c = '\n' := by
          intro c hc
          rw [getLast?_append_feed] at hc
          obtain rfl := Option.some.inj hc
          cases hlast : front.getLast? with
          | none => rfl
          | some d => exact hline.feed_front d hlast
        refine ⟨piece ++ '\n' :: front, back, by simp,
          ⟨hfeed, hline.feed_notMem, hline.line_end⟩, ?_⟩
        rw [linesFrom_append hpiece, List.length_cons, hcount]
    · by_cases hnil : cs = []
      · subst hnil
        rw [linesFrom] at h
        simp at h
      · rw [linesFrom_eq_singleton hmem (by simpa using hnil), List.reverse_nil,
          List.nil_append] at h
        cases k with
        | zero =>
          obtain rfl : cs = line := by simpa using h
          exact ⟨[], [], by simp, ⟨by simp, hmem, .inl ⟨rfl, hnil⟩⟩, by rw [linesFrom]; rfl⟩
        | succ k => simp at h

/-! ### Blanks -/

/-- No visible ASCII character is blank. -/
lemma isBlank_eq_false {c : Char} (hlow : 0x20 < c.toNat) (hhigh : c.toNat < 0x7F) :
    isBlank c = false := by
  simp only [isBlank, blankRanges, List.any_cons, List.any_nil, Bool.or_false, Bool.or_eq_false_iff,
    Bool.and_eq_false_iff, decide_eq_false_iff_not]
  omega

/-- The characters of a text without blanks at its ends. -/
structure IsTrimmed (text : List Char) : Prop where
  head : ∀ c ∈ text.head?, isBlank c = false
  last : ∀ c ∈ text.getLast?, isBlank c = false

instance (text : List Char) : Decidable (IsTrimmed text) :=
  decidable_of_iff (text.head?.all (!isBlank ·) ∧ text.getLast?.all (!isBlank ·)) (by
    simp only [Option.all_eq_true, Bool.not_eq_true']
    exact ⟨fun ⟨hhead, hlast⟩ => ⟨hhead, hlast⟩, fun ⟨hhead, hlast⟩ => ⟨hhead, hlast⟩⟩)

/-- A text without any blanks has none at its ends. -/
lemma isTrimmed_of_forall {text : List Char} (h : ∀ c ∈ text, isBlank c = false) :
    IsTrimmed text where
  head c hc := h c (List.mem_of_mem_head? hc)
  last c hc := h c (List.mem_of_mem_getLast? hc)

/-- Two texts with blanks at most between them have none at the ends. -/
lemma IsTrimmed.append {first last : List Char} (hfirst : IsTrimmed first)
    (hlast : IsTrimmed last) (hne : first ≠ []) (hne' : last ≠ []) (middle : List Char) :
    IsTrimmed (first ++ middle ++ last) where
  head c hc := by
    rw [List.append_assoc, List.head?_append_of_ne_nil _ hne] at hc
    exact hfirst.head c hc
  last c hc := by
    rw [List.getLast?_append_of_ne_nil _ hne'] at hc
    exact hlast.last c hc

/-- Blanks in front are dropped. -/
lemma dropWhile_append_of_blank {before text : List Char} (hbefore : ∀ c ∈ before, isBlank c)
    (htext : ∀ c ∈ text.head?, isBlank c = false) :
    (before ++ text).dropWhile isBlank = text := by
  rw [List.dropWhile_append_of_pos hbefore]
  cases text with
  | nil => rfl
  | cons c cs =>
    have hc := htext c rfl
    exact List.dropWhile_cons_of_neg (by simp [hc])

/-- **A text between blanks is trimmed to that text.** -/
theorem trim_append {before text behind : List Char} (htext : IsTrimmed text)
    (hbefore : ∀ c ∈ before, isBlank c) (hbehind : ∀ c ∈ behind, isBlank c) :
    trim (before ++ text ++ behind) = text := by
  by_cases hnil : text = []
  · subst hnil
    have hall : ∀ c ∈ before ++ behind, isBlank c := fun c hc =>
      (List.mem_append.1 hc).elim (hbefore c) (hbehind c)
    have hstart : trimStart (before ++ behind) = [] := by
      rw [trimStart, ← List.append_nil (before ++ behind)]
      exact dropWhile_append_of_blank hall (by simp)
    rw [List.append_nil, trim, hstart]
    rfl
  · have hstart : trimStart (before ++ text ++ behind) = text ++ behind := by
      rw [trimStart, List.append_assoc]
      refine dropWhile_append_of_blank hbefore fun c hc => ?_
      rw [List.head?_append_of_ne_nil _ hnil] at hc
      exact htext.head c hc
    have hlast : ∀ c ∈ text.reverse.head?, isBlank c = false := by
      rw [List.head?_reverse]
      exact htext.last
    have hreverse : ∀ c ∈ behind.reverse, isBlank c := fun c hc =>
      hbehind c (List.mem_reverse.1 hc)
    rw [trim, hstart, trimEnd, List.reverse_append, dropWhile_append_of_blank hreverse hlast,
      List.reverse_reverse]

/-- A text is what is left of it without the blanks around it, between these blanks. -/
lemma exists_eq_append_trim (cs : List Char) :
    ∃ before behind, cs = before ++ (trim cs ++ behind) ∧ (∀ c ∈ before, isBlank c) ∧
      ∀ c ∈ behind, isBlank c := by
  refine ⟨cs.takeWhile isBlank, ((trimStart cs).reverse.takeWhile isBlank).reverse, ?_, ?_, ?_⟩
  · have hend : trim cs ++ ((trimStart cs).reverse.takeWhile isBlank).reverse = trimStart cs := by
      rw [trim, trimEnd, ← List.reverse_append, List.takeWhile_append_dropWhile,
        List.reverse_reverse]
    rw [hend, trimStart, List.takeWhile_append_dropWhile]
  · intro c hc
    exact List.mem_takeWhile_imp hc
  · intro c hc
    exact List.mem_takeWhile_imp (List.mem_reverse.1 hc)

/-- Trimming changes nothing where no blanks are at the ends. -/
lemma trim_eq_self {text : List Char} (h : IsTrimmed text) : trim text = text := by
  have hnone : ∀ c ∈ ([] : List Char), isBlank c := by simp
  have key := trim_append h hnone hnone
  rwa [List.nil_append, List.append_nil] at key

/-- Trimming changes no string without blanks at its ends. -/
lemma trimmed_eq_self {s : String} (h : IsTrimmed s.toList) : trimmed s = s := by
  rw [trimmed, trim_eq_self h, String.ofList_toList]

end Z80.Text
