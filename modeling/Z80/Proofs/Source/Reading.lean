import Z80.Proofs.Expr.Simple
import Z80.Proofs.Text.Case
import Z80.Source.Quote

/-!
# Reading through literals

What the characters read so far say about the next one comes down to three things: the quote that
ends the literal being read, and whether the last letters are `af` or `a`.  Readings that agree on
these mark what follows alike.  Behind a character that is no letter and no quote, outside literals,
they agree with the start of a line, so what stands there is read as if nothing stood in front of
it.

## Main definitions

* `Z80.Source.Reading.behind` — the reading behind characters.
* `Z80.Source.Reading.Alike` — readings from which the same characters open and close literals.
* `Z80.Source.IsClosed` — whether the last literal of a text has its end.

## Main results

* `Z80.Source.Reading.Alike.behind` — behind the same characters alike readings are alike.
* `Z80.Source.markedFrom_append`, `Z80.Source.markedFrom_congr` — the marks of characters behind
  others, and behind alike readings.
* `Z80.Source.Reading.next_alike_start`, `Z80.Source.alike_behind_blanks` — where everything is as
  at the start.
-/

namespace Z80.Source

open Text (isBlank)

/-! ### Quotes -/

/-- A character that is no quote opens no literal. -/
lemma opens_eq_false {r : Reading} {c : Char} (h : c ≠ '\x22') (h' : c ≠ '\x27') :
    r.opens c = false := by
  simp [Reading.opens, h, h']

/-- Behind a character that is no quote no literal is read, if none was read in front of it. -/
lemma quote_next {r : Reading} {c : Char} (hr : r.quote = none) (h : c ≠ '\x22')
    (h' : c ≠ '\x27') : (r.next c).quote = none := by
  simp [Reading.next, hr, opens_eq_false h h']

/-! ### Readings -/

namespace Reading

/-- The reading behind characters. -/
def behind (r : Reading) (cs : List Char) : Reading :=
  cs.foldl next r

/-- The reading behind characters is that behind the last of them. -/
lemma behind_append (r : Reading) (cs ds : List Char) :
    r.behind (cs ++ ds) = (r.behind cs).behind ds :=
  List.foldl_append

/-- Whether the last character is an `a`, in any case. -/
def isAfterA (r : Reading) : Bool :=
  r.before.2.map Char.toLower = some 'a'

/-- Readings from which the same characters open and close literals. -/
structure Alike (r s : Reading) : Prop where
  quote : r.quote = s.quote
  isAfterAf : r.isAfterAf = s.isAfterAf
  isAfterA : r.isAfterA = s.isAfterA

namespace Alike

variable {r s t : Reading}

lemma refl (r : Reading) : r.Alike r :=
  ⟨rfl, rfl, rfl⟩

lemma symm (h : r.Alike s) : s.Alike r :=
  ⟨h.quote.symm, h.isAfterAf.symm, h.isAfterA.symm⟩

lemma trans (h : r.Alike s) (h' : s.Alike t) : r.Alike t :=
  ⟨h.quote.trans h'.quote, h.isAfterAf.trans h'.isAfterAf, h.isAfterA.trans h'.isAfterA⟩

lemma opens (h : r.Alike s) (c : Char) : r.opens c = s.opens c := by
  rw [Reading.opens, Reading.opens, h.isAfterAf]

lemma isPlain (h : r.Alike s) (c : Char) : r.isPlain c = s.isPlain c := by
  rw [Reading.isPlain, Reading.isPlain, h.quote, h.opens]

end Alike

variable {r s : Reading}

/-- Behind a character and the same letter in another case the readings are alike. -/
lemma next_alike (h : r.Alike s) {c d : Char} (hletter : c.toLower = d.toLower)
    (hquote : (r.next c).quote = (s.next d).quote) : (r.next c).Alike (s.next d) where
  quote := hquote
  isAfterAf := by
    change (r.isAfterA && decide (some c.toLower = some 'f')) =
      (s.isAfterA && decide (some d.toLower = some 'f'))
    rw [h.isAfterA, hletter]
  isAfterA := by
    change decide (some c.toLower = some 'a') = decide (some d.toLower = some 'a')
    rw [hletter]

/-- Behind the same character alike readings are alike. -/
lemma Alike.next (h : r.Alike s) (c : Char) : (r.next c).Alike (s.next c) := by
  refine next_alike h rfl ?_
  simp only [Reading.next, h.quote, h.opens]

/-- Behind the same characters alike readings are alike. -/
lemma Alike.behind (h : r.Alike s) (cs : List Char) : (r.behind cs).Alike (s.behind cs) := by
  induction cs generalizing r s with
  | nil => exact h
  | cons c cs ih => exact ih (h.next c)

/-- Outside literals, behind a character that is no letter and no quote, everything is as at the
start. -/
lemma next_alike_start (hr : r.quote = none) {c : Char} (hc : c.isAlpha = false)
    (hdouble : c ≠ '\x22') (hsingle : c ≠ '\x27') : (r.next c).Alike .start := by
  have hlower := Text.toLower_of_isAlpha_eq_false hc
  have hne (d : Char) (hd : d.isAlpha = true) : c ≠ d := by
    rintro rfl
    simp [hd] at hc
  refine ⟨quote_next hr hdouble hsingle, ?_, ?_⟩
  · simp [isAfterAf, next, start, hlower, hne 'f' (by decide)]
  · simp [isAfterA, next, start, hlower, hne 'a' (by decide)]

end Reading

open Reading (Alike)

/-- Whether no literal is open at the end of a text. -/
def IsClosed (text : List Char) : Prop :=
  (Reading.start.behind text).quote = none

instance (text : List Char) : Decidable (IsClosed text) :=
  inferInstanceAs (Decidable ((Reading.start.behind text).quote = none))

variable {r s : Reading} {cs : List Char}

/-- Characters without quotes leave no literal open. -/
lemma quote_behind (hr : r.quote = none) (h : ∀ c ∈ cs, c ≠ '\x22' ∧ c ≠ '\x27') :
    (r.behind cs).quote = none := by
  induction cs generalizing r with
  | nil => exact hr
  | cons c cs ih =>
    obtain ⟨hdouble, hsingle⟩ := h c List.mem_cons_self
    exact ih (quote_next hr hdouble hsingle) fun d hd => h d (List.mem_cons_of_mem _ hd)

/-! ### Blanks -/

/-- A blank is no letter. -/
lemma isAlpha_of_isBlank {c : Char} (hc : isBlank c = true) : c.isAlpha = false := by
  cases hletter : c.isAlpha with
  | false => rfl
  | true =>
    have halphanum : c.isAlphanum := by simp [Char.isAlphanum, hletter]
    have hword := Expr.isBlank_of_isWordChar (Expr.isWordChar_of_isAlphanum halphanum)
    simp [hword] at hc

/-- A blank is no quote. -/
lemma ne_quote_of_isBlank {c : Char} (hc : isBlank c = true) : c ≠ '\x22' ∧ c ≠ '\x27' := by
  constructor
  all_goals
    rintro rfl
    exact absurd hc (by decide)

/-- Outside literals, behind a blank everything is as at the start. -/
lemma next_blank {c : Char} (hr : r.quote = none) (hc : isBlank c = true) :
    (r.next c).Alike .start :=
  Reading.next_alike_start hr (isAlpha_of_isBlank hc) (ne_quote_of_isBlank hc).1
    (ne_quote_of_isBlank hc).2

/-- Where everything is as at the start, it is so behind blanks, too. -/
lemma alike_behind_blanks (h : r.Alike .start) (hcs : ∀ c ∈ cs, isBlank c) :
    (r.behind cs).Alike .start := by
  induction cs generalizing r with
  | nil => exact h
  | cons c cs ih =>
    obtain ⟨hc, hcs⟩ := List.forall_mem_cons.1 hcs
    exact ih (next_blank h.quote hc) hcs

/-! ### Marks -/

/-- Marking characters keeps them. -/
lemma map_fst_markedFrom (r : Reading) (cs : List Char) :
    (markedFrom r cs).map Prod.fst = cs := by
  induction cs generalizing r with
  | nil => rfl
  | cons c cs ih => rw [markedFrom, List.map_cons, ih]

/-- Marked characters are among those that were to be marked. -/
lemma mem_of_mem_markedFrom {mark : Char × Bool} (h : mark ∈ markedFrom r cs) : mark.1 ∈ cs := by
  rw [← map_fst_markedFrom r cs]
  exact List.mem_map_of_mem h

/-- Characters behind others are marked by the reading there. -/
lemma markedFrom_append (r : Reading) (cs ds : List Char) :
    markedFrom r (cs ++ ds) = markedFrom r cs ++ markedFrom (r.behind cs) ds := by
  induction cs generalizing r with
  | nil => rfl
  | cons c cs ih => exact congrArg ((c, r.isPlain c) :: ·) (ih (r.next c))

/-- Alike readings mark alike. -/
lemma markedFrom_congr (h : r.Alike s) (cs : List Char) : markedFrom r cs = markedFrom s cs := by
  induction cs generalizing r s with
  | nil => rfl
  | cons c cs ih => rw [markedFrom, markedFrom, h.isPlain, ih (h.next c)]

/-- Characters without quotes stand outside literals. -/
lemma markedFrom_of_ne_quote (hr : r.quote = none) (h : ∀ c ∈ cs, c ≠ '\x22' ∧ c ≠ '\x27') :
    markedFrom r cs = cs.map fun c => (c, true) := by
  induction cs generalizing r with
  | nil => rfl
  | cons c cs ih =>
    obtain ⟨⟨hdouble, hsingle⟩, hcs⟩ := List.forall_mem_cons.1 h
    have hplain : r.isPlain c = true := by
      simp [Reading.isPlain, hr, opens_eq_false hdouble hsingle]
    rw [markedFrom, List.map_cons, hplain, ih (quote_next hr hdouble hsingle) hcs]

end Z80.Source
