import Mathlib.Data.List.Induction
import Z80.Proofs.Source.Statement
import Z80.Proofs.Text.Case

/-!
# Lines in lower case

The letters of a line that stand outside its literals may be put in lower case without a change to
what the line is taken apart into, as long as each piece is folded alike.  Literals start and end
where they did, because no quote is a letter and the rule for the apostrophe behind `af` goes by the
letters in either case.

## Main definitions

* `Z80.Source.fold` — a text with the letters outside its literals in lower case.

## Main results

* `Z80.Source.foldFrom_eq_foldFrom_iff` — texts fold alike if they differ at most in letters outside
  literals.
* `Z80.Source.splitAtMark?_foldFrom` — labels and comments.
* `Z80.Source.fold_replaceCharLiterals` — the numerals of character literals.
* `Z80.Source.trim_fold`, `Z80.Source.splitWord_fold`, `Z80.Source.splitOperandChars_fold` — words
  and operands.

## Design

A word is cut off at a blank even if that blank stands in a literal, and then what follows the word
starts inside a literal, too.  This is why the results about words ask that no literal is left open
in them.
-/

namespace Z80.Source

open Text (isBlank trim trimStart trimEnd toLower_eq_iff)

/-! ### Readings -/

namespace Reading

/-- The character with its letter in lower case, if it stands outside literals. -/
def fold (r : Reading) (c : Char) : Char :=
  if r.isPlain c then c.toLower else c

variable {r s : Reading}

/-- Alike readings fold a character alike. -/
lemma Alike.fold (h : r.Alike s) (c : Char) : r.fold c = s.fold c := by
  rw [Reading.fold, Reading.fold, h.isPlain]

/-- A quote is no letter. -/
@[simp]
lemma opens_toLower (r : Reading) (c : Char) : r.opens c.toLower = r.opens c := by
  have hdouble : c.toLower = '\x22' ↔ c = '\x22' := toLower_eq_iff (by decide)
  have hsingle : c.toLower = '\x27' ↔ c = '\x27' := toLower_eq_iff (by decide)
  simp only [opens, hdouble, hsingle]

/-- A character stands outside literals in lower case as well. -/
@[simp]
lemma isPlain_toLower (r : Reading) (c : Char) : r.isPlain c.toLower = r.isPlain c := by
  rw [isPlain, isPlain, opens_toLower]

/-- A folded character stands outside literals if it did. -/
@[simp]
lemma isPlain_fold (r : Reading) (c : Char) : r.isPlain (r.fold c) = r.isPlain c := by
  rw [fold]
  split <;> simp

/-- A folded character is the same letter. -/
@[simp]
lemma toLower_fold (r : Reading) (c : Char) : (r.fold c).toLower = c.toLower := by
  rw [fold]
  split <;> simp

/-- What is the same in lower case is the same of a folded character. -/
lemma apply_fold {α : Type} {f : Char → α} (h : ∀ c, f c.toLower = f c) (r : Reading) (c : Char) :
    f (r.fold c) = f c := by
  rw [← h, r.toLower_fold, h]

/-- Only letters are folded. -/
lemma fold_eq_iff (r : Reading) {c d : Char} (hd : d.isAlpha = false) : r.fold c = d ↔ c = d := by
  rw [fold]
  split
  · exact toLower_eq_iff hd
  · rfl

/-- A character that is no letter is not folded. -/
lemma fold_eq_self (r : Reading) {c : Char} (hc : c.isAlpha = false) : r.fold c = c :=
  (r.fold_eq_iff hc).2 rfl

/-- A folded character is folded for good. -/
@[simp]
lemma fold_fold (r : Reading) (c : Char) : r.fold (r.fold c) = r.fold c := by
  cases hplain : r.isPlain c with
  | true => simp [fold, hplain]
  | false => simp [fold, hplain]

/-- An apostrophe is not folded. -/
@[simp]
lemma fold_apostrophe (r : Reading) : r.fold '\x27' = '\x27' :=
  r.fold_eq_self (by decide)

/-- Characters of literals are not folded. -/
lemma fold_of_quote {q : Char} (h : r.quote = some q) (c : Char) : r.fold c = c := by
  simp [fold, isPlain, h]

/-- Behind a folded character the reading is as behind the character itself. -/
lemma next_fold (r : Reading) (c : Char) : (r.next (r.fold c)).Alike (r.next c) := by
  refine next_alike (.refl r) (r.toLower_fold c) ?_
  rw [fold]
  split
  · next hplain =>
    rw [isPlain, Bool.and_eq_true, Option.isNone_iff_eq_none] at hplain
    have hopens : r.opens c = false := by simpa using hplain.2
    simp [next, hplain.1, hopens]
  · rfl

end Reading

open Reading (Alike)

/-! ### Texts -/

/-- Characters behind a reading, with the letters outside literals in lower case. -/
def foldFrom (r : Reading) : List Char → List Char
  | [] => []
  | c :: cs => r.fold c :: foldFrom (r.next c) cs

/-- The characters of a text with the letters outside literals in lower case. -/
def fold (text : List Char) : List Char :=
  foldFrom .start text

variable {r s : Reading}

/-- Alike readings fold alike. -/
lemma foldFrom_congr (h : r.Alike s) (cs : List Char) : foldFrom r cs = foldFrom s cs := by
  induction cs generalizing r s with
  | nil => rfl
  | cons c cs ih => rw [foldFrom, foldFrom, h.fold, ih (h.next c)]

/-- An apostrophe is not folded. -/
lemma foldFrom_apostrophe (r : Reading) (cs : List Char) :
    foldFrom r ('\x27' :: cs) = '\x27' :: foldFrom (r.next '\x27') cs := by
  rw [foldFrom, r.fold_apostrophe]

/-- What is behind characters is folded by the reading behind them. -/
lemma foldFrom_append (r : Reading) (cs ds : List Char) :
    foldFrom r (cs ++ ds) = foldFrom r cs ++ foldFrom (r.behind cs) ds := by
  induction cs generalizing r with
  | nil => rfl
  | cons c cs ih => exact congrArg (r.fold c :: ·) (ih (r.next c))

/-- What is left of folded characters is folded by the reading behind those that are dropped. -/
lemma drop_foldFrom (r : Reading) (n : Nat) (cs : List Char) :
    (foldFrom r cs).drop n = foldFrom (r.behind (cs.take n)) (cs.drop n) := by
  induction n generalizing r cs with
  | zero => rfl
  | succ n ih =>
    cases cs with
    | nil => rfl
    | cons c cs => exact ih (r.next c) cs

/-- Folded characters are the same letters. -/
@[simp]
lemma map_toLower_foldFrom (r : Reading) (cs : List Char) :
    (foldFrom r cs).map Char.toLower = cs.map Char.toLower := by
  induction cs generalizing r with
  | nil => rfl
  | cons c cs ih => rw [foldFrom, List.map_cons, List.map_cons, ih, r.toLower_fold]

@[simp]
lemma map_toLower_fold (cs : List Char) : (fold cs).map Char.toLower = cs.map Char.toLower :=
  map_toLower_foldFrom .start cs

/-- Folding keeps the number of characters. -/
@[simp]
lemma length_foldFrom (r : Reading) (cs : List Char) : (foldFrom r cs).length = cs.length := by
  have key := congrArg List.length (map_toLower_foldFrom r cs)
  rwa [List.length_map, List.length_map] at key

/-- Behind folded characters the reading is as behind the characters themselves. -/
lemma behind_foldFrom (h : s.Alike r) (cs : List Char) :
    (s.behind (foldFrom r cs)).Alike (r.behind cs) := by
  induction cs generalizing r s with
  | nil => exact h
  | cons c cs ih => exact ih ((h.next (r.fold c)).trans (r.next_fold c))

/-- Folding leaves no literal open that was closed, and closes none. -/
lemma isClosed_fold (cs : List Char) : IsClosed (fold cs) ↔ IsClosed cs := by
  rw [IsClosed, IsClosed, fold, (behind_foldFrom (.refl .start) cs).quote]

/-- Whether two characters, each with the mark whether it stands outside literals, are the same, in
any case if they stand outside. -/
def SameMarked (p q : Char × Bool) : Prop :=
  p.1 = q.1 ∨ (p.2 = true ∧ q.2 = true ∧ p.1.toLower = q.1.toLower)

/-- Characters behind alike readings fold alike if they are the same, in any case outside
literals. -/
lemma fold_eq_fold_iff_sameMarked (h : r.Alike s) {c d : Char} :
    r.fold c = s.fold d ↔ SameMarked (c, r.isPlain c) (d, s.isPlain d) := by
  constructor
  · intro heq
    have hplain : r.isPlain c = s.isPlain d := by
      rw [← r.isPlain_fold c, heq, h.isPlain, s.isPlain_fold]
    cases hmark : s.isPlain d with
    | true =>
      have hlower := congrArg Char.toLower heq
      rw [r.toLower_fold, s.toLower_fold] at hlower
      exact .inr ⟨hplain.trans hmark, rfl, hlower⟩
    | false =>
      rw [hmark] at hplain
      exact .inl (by simpa [Reading.fold, hplain, hmark] using heq)
  · rintro (rfl | ⟨hr, hs, hlower⟩)
    · exact h.fold c
    · change r.isPlain c = true at hr
      change s.isPlain d = true at hs
      rw [Reading.fold, Reading.fold, if_pos hr, if_pos hs]
      exact hlower

/-- **Two texts fold alike if and only if they differ at most in letters outside literals.** -/
theorem foldFrom_eq_foldFrom_iff (h : r.Alike s) {cs ds : List Char} :
    foldFrom r cs = foldFrom s ds ↔
      List.Forall₂ SameMarked (markedFrom r cs) (markedFrom s ds) := by
  induction cs generalizing r s ds with
  | nil =>
    cases ds with
    | nil => simp [foldFrom, markedFrom]
    | cons d ds =>
      refine iff_of_false (by simp [foldFrom]) ?_
      rintro ⟨⟩
  | cons c cs ih =>
    cases ds with
    | nil =>
      refine iff_of_false (by simp [foldFrom]) ?_
      rintro ⟨⟩
    | cons d ds =>
      rw [foldFrom, foldFrom, markedFrom, markedFrom, List.forall₂_cons, List.cons.injEq,
        fold_eq_fold_iff_sameMarked h]
      refine and_congr_right fun hsame => ih ?_
      have heq := (fold_eq_fold_iff_sameMarked h).2 hsame
      have hnext := (h.next (r.fold c)).symm.trans (r.next_fold c)
      exact hnext.symm.trans (heq ▸ s.next_fold d)

/-! ### Cuts -/

/-- **A folded text is cut where the text is.** -/
theorem splitAtMark?_foldFrom (h : s.Alike r) {d : Char} (hd : d.isAlpha = false)
    (hdouble : d ≠ '\x22') (hsingle : d ≠ '\x27') (cs : List Char) :
    splitAtMark? d (markedFrom s (foldFrom r cs)) =
      (splitAtMark? d (markedFrom r cs)).map fun (before, after) =>
        (foldFrom r before, fold after) := by
  induction cs generalizing r s with
  | nil => rfl
  | cons c cs ih =>
    have hplain : s.isPlain (r.fold c) = r.isPlain c := (h.isPlain _).trans (r.isPlain_fold c)
    have hnext : (s.next (r.fold c)).Alike (r.next c) := (h.next _).trans (r.next_fold c)
    rw [foldFrom, markedFrom, markedFrom, splitAtMark?, splitAtMark?, hplain, ih hnext]
    simp only [r.fold_eq_iff hd]
    split
    · next hcut =>
      rw [Bool.and_eq_true, decide_eq_true_eq] at hcut
      obtain ⟨hmark, rfl⟩ := hcut
      rw [Reading.isPlain, Bool.and_eq_true, Option.isNone_iff_eq_none] at hmark
      have hstart := Reading.next_alike_start hmark.1 hd hdouble hsingle
      simp only [map_fst_markedFrom, Option.map_some, foldFrom, fold, foldFrom_congr hstart]
    · simp only [Option.map_map]
      rfl

/-! ### Blanks and words -/

/-- A folded character is blank if it was. -/
@[simp]
lemma isBlank_fold (r : Reading) (c : Char) : isBlank (r.fold c) = isBlank c :=
  r.apply_fold Text.isBlank_toLower c

/-- Blanks at the start of a folded text are dropped. -/
lemma trimStart_foldFrom (h : r.Alike .start) (cs : List Char) :
    trimStart (foldFrom r cs) = fold (trimStart cs) := by
  induction cs generalizing r with
  | nil => rfl
  | cons c cs ih =>
    have hr : r.quote = none := h.quote
    simp only [trimStart, foldFrom, List.dropWhile_cons, isBlank_fold]
    split
    · next hblank => exact ih (next_blank hr hblank)
    · exact foldFrom_congr h (c :: cs)

/-- Blanks behind a text do not count. -/
lemma trimEnd_concat (cs : List Char) (c : Char) :
    trimEnd (cs ++ [c]) = if isBlank c then trimEnd cs else cs ++ [c] := by
  simp only [trimEnd, List.reverse_append, List.reverse_singleton, List.singleton_append,
    List.dropWhile_cons]
  split
  · rfl
  · simp

/-- Blanks at the end of a folded text are dropped. -/
lemma trimEnd_foldFrom (r : Reading) (cs : List Char) :
    trimEnd (foldFrom r cs) = foldFrom r (trimEnd cs) := by
  induction cs using List.reverseRecOn with
  | nil => rfl
  | append_singleton cs c ih =>
    have hfold : foldFrom r (cs ++ [c]) = foldFrom r cs ++ [(r.behind cs).fold c] :=
      foldFrom_append r cs [c]
    rw [hfold, trimEnd_concat, trimEnd_concat, isBlank_fold, ih]
    split
    · rfl
    · exact hfold.symm

/-- **A folded text is trimmed to the folded one.** -/
theorem trim_fold (cs : List Char) : trim (fold cs) = fold (trim cs) := by
  rw [trim, trim, fold, trimStart_foldFrom (.refl .start), fold, trimEnd_foldFrom]
  rfl

section While

variable {p : Char → Bool} (hp : ∀ c, p c.toLower = p c)

include hp

/-- The characters that a folded text starts with. -/
lemma takeWhile_foldFrom (r : Reading) (cs : List Char) :
    (foldFrom r cs).takeWhile p = foldFrom r (cs.takeWhile p) := by
  induction cs generalizing r with
  | nil => rfl
  | cons c cs ih =>
    simp only [foldFrom, List.takeWhile_cons, r.apply_fold hp]
    split
    · rw [ih, foldFrom]
    · rfl

/-- What is behind them is folded by the reading behind them. -/
lemma dropWhile_foldFrom (r : Reading) (cs : List Char) :
    (foldFrom r cs).dropWhile p = foldFrom (r.behind (cs.takeWhile p)) (cs.dropWhile p) := by
  induction cs generalizing r with
  | nil => rfl
  | cons c cs ih =>
    simp only [foldFrom, List.dropWhile_cons, List.takeWhile_cons, r.apply_fold hp]
    split
    · exact ih (r.next c)
    · rfl

end While

/-- A blank ends a word in either case. -/
lemma not_isBlank_toLower (c : Char) : (!isBlank c.toLower) = !isBlank c := by
  rw [Text.isBlank_toLower]

/-- The first word of a folded text is the folded one. -/
lemma splitWord_fold_fst (text : List Char) :
    (splitWord (fold text)).1 = fold (splitWord text).1 := by
  simp only [splitWord, trim_fold]
  exact takeWhile_foldFrom not_isBlank_toLower .start (trim text)

/-- **The first word of a folded text, and what follows it**, are the folded ones, if no literal is
left open in the word. -/
theorem splitWord_fold {text : List Char} (h : IsClosed (splitWord text).1) :
    splitWord (fold text) = (fold (splitWord text).1, fold (splitWord text).2) := by
  refine Prod.ext (splitWord_fold_fst text) ?_
  simp only [splitWord, trim_fold, IsClosed] at h ⊢
  rw [fold, dropWhile_foldFrom not_isBlank_toLower]
  -- what follows the word is empty or starts with a blank
  rcases hrest : (trim text).dropWhile (fun c => !isBlank c) with _ | ⟨c, rest⟩
  · rfl
  · have hblank : isBlank c = true := by
      have hhead := List.head?_dropWhile_not (fun c => !isBlank c) (trim text)
      simpa [hrest] using hhead
    have hnext := next_blank h hblank
    have hdrop (ds : List Char) : trim (c :: ds) = trim ds := by
      simp only [trim, trimStart, List.dropWhile_cons, hblank, ↓reduceIte]
    rw [foldFrom, Reading.fold_eq_self _ (isAlpha_of_isBlank hblank), hdrop, hdrop,
      foldFrom_congr hnext, ← fold, trim_fold]

/-! ### Character literals -/

/-- The digits of a number are no quotes. -/
lemma ne_quote_of_mem_hexDigits {width n : Nat} {c : Char} (h : c ∈ Text.hexDigits width n) :
    c ≠ '\x22' ∧ c ≠ '\x27' := by
  obtain ⟨m, hm, rfl⟩ := Expr.exists_of_mem_hexDigits h
  have key : ∀ m < 16, Text.hexDigit m ≠ '\x22' ∧ Text.hexDigit m ≠ '\x27' := by decide
  exact key m hm

/-- Behind the numeral of a character everything is as at the start, but that its last letter is
neither of the two that count. -/
lemma behind_charNumeral (hr : r.quote = none) (c : Char) :
    (r.behind (charNumeral c)).Alike .start := by
  have hdigits : (r.behind ('0' :: Text.hexDigits 2 c.toNat)).quote = none := by
    refine quote_behind hr fun d hd => ?_
    rcases List.mem_cons.1 hd with rfl | hmem
    · decide
    · exact ne_quote_of_mem_hexDigits hmem
  have hbehind : r.behind (charNumeral c) =
      (r.behind ('0' :: Text.hexDigits 2 c.toNat)).next 'h' := by
    simp only [Reading.behind, charNumeral, List.foldl_append, List.foldl_cons, List.foldl_nil]
  rw [hbehind]
  refine ⟨quote_next hdigits (by decide) (by decide), ?_, ?_⟩
  · simp [Reading.isAfterAf, Reading.next, Reading.start]
  · simp [Reading.isAfterA, Reading.next, Reading.start]

/-- Character literals start alike behind alike readings. -/
lemma startsCharLiteral_congr (h : s.Alike r) (c : Char) :
    s.startsCharLiteral c = r.startsCharLiteral c := by
  rw [Reading.startsCharLiteral, Reading.startsCharLiteral, h.quote, h.opens]

/-- A character between apostrophes is a literal if the folded one is. -/
lemma startsCharLiteral_fold (r : Reading) (c : Char) :
    r.startsCharLiteral ((r.next '\x27').fold c) = r.startsCharLiteral c := by
  cases hopens : r.quote.isNone && r.opens '\x27' with
  | false => simp [Reading.startsCharLiteral, hopens]
  | true =>
    rw [Bool.and_eq_true, Option.isNone_iff_eq_none] at hopens
    have hquote : (r.next '\x27').quote = some '\x27' := by
      simp [Reading.next, hopens.1, hopens.2]
    rw [Reading.fold_of_quote hquote]

/-- A character literal is not folded, and behind it everything starts afresh. -/
lemma foldFrom_charLiteral {c : Char} (h : r.startsCharLiteral c = true) (cs : List Char) :
    foldFrom r ('\x27' :: c :: '\x27' :: cs) =
      '\x27' :: c :: '\x27' :: foldFrom ⟨none, some c, some '\x27'⟩ cs := by
  simp only [Reading.startsCharLiteral, Bool.and_eq_true, Option.isNone_iff_eq_none,
    decide_eq_true_eq] at h
  obtain ⟨⟨⟨hquote, hopens⟩, -⟩, hne⟩ := h
  have hinside : (r.next '\x27').quote = some '\x27' := by simp [Reading.next, hquote, hopens]
  have hstill : ((r.next '\x27').next c).quote = some '\x27' := by
    simp [Reading.next, hquote, hopens, hne]
  have hbehind : (((r.next '\x27').next c).next '\x27').Alike ⟨none, some c, some '\x27'⟩ :=
    ⟨by simp [Reading.next, hquote, hopens, hne], rfl, rfl⟩
  rw [foldFrom, foldFrom, foldFrom, r.fold_apostrophe, Reading.fold_of_quote hinside,
    Reading.fold_of_quote hstill, foldFrom_congr hbehind]

/-- A character and an apostrophe behind it stay there in a folded text. -/
lemma foldFrom_eq_cons_apostrophe {d : Char} {cs ds : List Char}
    (h : foldFrom r cs = d :: '\x27' :: ds) : ∃ c rest, cs = c :: '\x27' :: rest := by
  rcases cs with _ | ⟨c, _ | ⟨e, rest⟩⟩
  · cases h
  · cases h
  · rw [foldFrom, foldFrom, List.cons.injEq, List.cons.injEq,
      (r.next c).fold_eq_iff (by decide)] at h
    exact ⟨c, rest, by rw [h.2.1]⟩

/-- **Character literals become numerals alike in a folded text.**

**Proof sketch.** A character literal is not folded.  Its numeral has capital digits, so the two
results agree only once both are folded. -/
theorem foldFrom_replaceFrom {r s r' s' : Reading} (cs : List Char) (h : s.Alike r)
    (hr : r'.Alike r) (hs : s'.Alike r) :
    foldFrom s' (replaceFrom s (foldFrom r cs)) = foldFrom r' (replaceFrom r cs) := by
  induction r, cs using replaceFrom.induct generalizing s r' s' with
  | case1 r => simp only [foldFrom, replaceFrom]
  | case2 r c cs hstarts ih =>
    have hquote : r.quote = none := by
      simp only [Reading.startsCharLiteral, Bool.and_eq_true, Option.isNone_iff_eq_none] at hstarts
      exact hstarts.1.1.1
    have hliteral : Reading.start.Alike ⟨none, some c, some '\x27'⟩ :=
      ⟨rfl, by simp [Reading.isAfterAf, Reading.start], rfl⟩
    have hrest := ih (.refl _)
      ((behind_charNumeral (hr.quote.trans hquote) c).trans hliteral)
      ((behind_charNumeral (hs.quote.trans hquote) c).trans hliteral)
    rw [foldFrom_charLiteral hstarts, replaceFrom, replaceFrom, startsCharLiteral_congr h,
      if_pos hstarts, if_pos hstarts, foldFrom_append, foldFrom_append, hrest,
      foldFrom_congr (hs.trans hr.symm)]
  | case3 r c cs hstarts ih =>
    have hinner : foldFrom (r.next '\x27') (c :: '\x27' :: cs) =
        (r.next '\x27').fold c :: '\x27' ::
          foldFrom (((r.next '\x27').next c).next '\x27') cs := by
      rw [foldFrom, foldFrom_apostrophe]
    have hreplace : replaceFrom s (foldFrom r ('\x27' :: c :: '\x27' :: cs)) =
        '\x27' :: replaceFrom (s.next '\x27') (foldFrom (r.next '\x27') (c :: '\x27' :: cs)) := by
      rw [foldFrom_apostrophe, hinner, replaceFrom, startsCharLiteral_congr h,
        startsCharLiteral_fold, if_neg hstarts]
    rw [hreplace, replaceFrom, if_neg hstarts, foldFrom_apostrophe, foldFrom_apostrophe,
      ih (h.next _) (hr.next _) (hs.next _)]
  | case4 r c cs hother ih =>
    have hother' : ∀ d ds, r.fold c = '\x27' → foldFrom (r.next c) cs = d :: '\x27' :: ds →
        False := by
      intro d ds hc hcs
      obtain ⟨e, rest, rfl⟩ := foldFrom_eq_cons_apostrophe hcs
      exact hother e rest ((r.fold_eq_iff (by decide)).1 hc) rfl
    rw [foldFrom, replaceFrom.eq_3 _ _ _ hother', replaceFrom.eq_3 _ _ _ hother]
    simp only [foldFrom]
    rw [hs.fold, hr.fold, r.fold_fold, ih ((h.next _).trans (r.next_fold c)) (hr.next c)
      ((hs.next _).trans (r.next_fold c))]

/-- **A folded line has the same character literals**, whose numerals may be folded as well. -/
theorem fold_replaceCharLiterals (line : List Char) :
    fold (replaceCharLiterals (fold line)) = fold (replaceCharLiterals line) :=
  foldFrom_replaceFrom line (.refl _) (.refl _) (.refl _)

/-! ### Operands -/

/-- Behind the comma between two operands everything is as at the start. -/
lemma partsFrom_foldFrom (h : s.Alike r) {part : List Char}
    (hpart : (Reading.start.behind part.reverse).Alike r) (depth : Int) (cs : List Char) :
    partsFrom depth (fold part.reverse).reverse (markedFrom s (foldFrom r cs)) =
      (partsFrom depth part (markedFrom r cs)).map fold := by
  induction cs generalizing r s part depth with
  | nil => simp only [foldFrom, markedFrom, partsFrom, List.reverse_reverse, List.map_cons,
      List.map_nil]
  | cons c cs ih =>
    have hplain : s.isPlain (r.fold c) = r.isPlain c := (h.isPlain _).trans (r.isPlain_fold c)
    have hnext : (s.next (r.fold c)).Alike (r.next c) := (h.next _).trans (r.next_fold c)
    simp only [foldFrom, markedFrom, partsFrom, hplain,
      r.fold_eq_iff (by decide : (',').isAlpha = false),
      r.fold_eq_iff (by decide : ('(').isAlpha = false),
      r.fold_eq_iff (by decide : (')').isAlpha = false)]
    split
    · next hcut =>
      simp only [Bool.and_eq_true, decide_eq_true_eq] at hcut
      obtain ⟨⟨hmark, rfl⟩, -⟩ := hcut
      rw [Reading.isPlain, Bool.and_eq_true, Option.isNone_iff_eq_none] at hmark
      have hstart : (r.next ',').Alike .start :=
        Reading.next_alike_start hmark.1 (by decide) (by decide) (by decide)
      rw [List.reverse_reverse, List.map_cons]
      exact congrArg _ (@ih _ _ hnext [] hstart.symm depth)
    · -- the character belongs to the part that is being read
      have happend : fold (c :: part).reverse = fold part.reverse ++ [r.fold c] := by
        have key := foldFrom_append .start part.reverse [c]
        rwa [foldFrom, hpart.fold, foldFrom, ← List.reverse_cons] at key
      have hconcat :
          r.fold c :: (fold part.reverse).reverse = (fold (c :: part).reverse).reverse := by
        rw [happend, List.reverse_append]
        rfl
      have hbehind : (Reading.start.behind (c :: part).reverse).Alike (r.next c) := by
        rw [List.reverse_cons, Reading.behind, List.foldl_append]
        exact hpart.next c
      rw [hconcat]
      exact ih hnext hbehind _

/-- **A folded text has the folded operands.** -/
theorem splitOperandChars_fold (text : List Char) :
    splitOperandChars (fold text) = (splitOperandChars text).map fold := by
  have hempty (cs : List Char) : (fold cs).isEmpty = cs.isEmpty := by
    cases cs <;> rfl
  have hparts : partsFrom 0 [] (markedFrom .start (foldFrom .start (trim text))) =
      (partsFrom 0 [] (markedFrom .start (trim text))).map fold :=
    @partsFrom_foldFrom .start .start (.refl .start) [] (.refl .start) 0 (trim text)
  simp only [splitOperandChars, trim_fold, hempty]
  split
  · rfl
  · have htrim : (List.map trim ∘ List.map fold) = (List.map fold ∘ List.map trim) := by
      funext parts
      simp only [Function.comp_apply, List.map_map]
      exact List.map_congr_left fun part _ => trim_fold part
    rw [marked, marked, fold]
    exact (congrArg (List.map trim) hparts).trans (congrFun htrim _)

end Z80.Source
