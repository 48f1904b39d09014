import Mathlib.Data.List.TakeWhile
import Z80.Proofs.Expr.Simple
import Z80.Proofs.Text.Case

/-!
# The spellings of a number

A number may be written in decimal, in binary, and in hexadecimal in three ways, with any leading
zeros and with letters in both cases.  All of these are read as the same number; a number that 64
bits do not hold is refused in each of them and never wraps.

## Main definitions

* `Z80.Expr.Spelling` — the ways of writing a number.
* `Z80.Expr.Spelling.chars` — the characters of a number, in lower case.

## Main results

* `Z80.Expr.readDigits_toDigits` — the digits of a number are worth that number.
* `Z80.Expr.Spelling.splitRadix_chars`, `Z80.Expr.Spelling.numeral?_chars` — which radix is found,
  and what the digits are worth.
* `Z80.Expr.tokenize_word`, `Z80.Expr.tokenize_dollar` — a text that is one numeral.
* `Z80.Expr.tokenize_spelling` — each spelling is the token of its number, or none.

## Design

Digits are those of `Nat.toDigits`, so that what is read here is written by the core library.  The
radix is found from the ends of a numeral, and the digits between them must not be mistaken for
such an end: no digit is an `x` or an `h`, and a `b` is a digit only behind `0x` or in front of `h`.
-/

namespace Z80.Expr

/-! ### Digits -/

section Digits

variable {radix n zeros : Nat} {c : Char}

/-- The digits of a number with zeros in front of them. -/
def paddedDigits (radix zeros n : Nat) : List Char :=
  List.replicate zeros '0' ++ Nat.toDigits radix n

/-- The digits of a number are digits below the radix. -/
lemma exists_of_mem_toDigits (hradix : 1 < radix) (hc : c ∈ Nat.toDigits radix n) :
    ∃ d < radix, c = Nat.digitChar d := by
  induction n using Nat.strong_induction_on with
  | h n ih =>
    rw [Nat.toDigits_eq_if hradix] at hc
    split at hc
    · next hlt => exact ⟨n, hlt, List.mem_singleton.1 hc⟩
    · next hge =>
      rcases List.mem_append.1 hc with hfront | hlast
      · exact ih (n / radix) (Nat.div_lt_self (by omega) hradix) hfront
      · exact ⟨n % radix, Nat.mod_lt _ (by omega), List.mem_singleton.1 hlast⟩

/-- So are the zeros in front of them. -/
lemma exists_of_mem_paddedDigits (hradix : 1 < radix) (hc : c ∈ paddedDigits radix zeros n) :
    ∃ d < radix, c = Nat.digitChar d := by
  rcases List.mem_append.1 hc with hzero | hdigit
  · exact ⟨0, by omega, (List.mem_replicate.1 hzero).2⟩
  · exact exists_of_mem_toDigits hradix hdigit

/-- What holds of each digit below the radix holds of the digits of a number. -/
lemma forall_mem_paddedDigits {P : Char → Prop} (hradix : 1 < radix)
    (h : ∀ d < radix, P (Nat.digitChar d)) : ∀ c ∈ paddedDigits radix zeros n, P c := by
  intro c hc
  obtain ⟨d, hd, rfl⟩ := exists_of_mem_paddedDigits hradix hc
  exact h d hd

/-- A number has at least one digit. -/
lemma paddedDigits_ne_nil (hradix : 1 < radix) : paddedDigits radix zeros n ≠ [] := by
  rw [paddedDigits, Nat.toDigits_eq_if hradix]
  split <;> simp

/-- What holds of each digit below the radix holds of the first digit of a number. -/
lemma any_head?_paddedDigits {p : Char → Bool} (hradix : 1 < radix)
    (h : ∀ d < radix, p (Nat.digitChar d) = true) (behind : List Char) :
    (paddedDigits radix zeros n ++ behind).head?.any p = true := by
  have hall : ∀ c ∈ paddedDigits radix zeros n, p c = true := forall_mem_paddedDigits hradix h
  have hne : paddedDigits radix zeros n ≠ [] := paddedDigits_ne_nil hradix
  cases hdigits : paddedDigits radix zeros n with
  | nil => exact absurd hdigits hne
  | cons c cs => exact hall c (hdigits ▸ List.mem_cons_self)

/-- A digit is worth what it stands for. -/
lemma digit?_digitChar (hradix : radix ≤ 16) {d : Nat} (hd : d < radix) :
    digit? radix (Nat.digitChar d) = some d := by
  have hvalue : ∀ d < 16, digitValue? (Nat.digitChar d) = some d := by decide
  rw [digit?, hvalue d (by omega), Option.filter_some, if_pos (by simpa using hd)]

/-- **The digits of a number are worth that number.**

**Proof sketch.** Induction on the number without its last digit. -/
theorem readDigits_toDigits (hradix : 1 < radix) (hle : radix ≤ 16) (n : Nat) :
    readDigits radix 0 (Nat.toDigits radix n) = some n := by
  induction n using Nat.strong_induction_on with
  | h n ih =>
    rw [Nat.toDigits_eq_if hradix]
    split
    · next hlt => simp [readDigits, digit?_digitChar hle hlt]
    · next hge =>
      have hfront := ih (n / radix) (Nat.div_lt_self (by omega) hradix)
      have hlast := digit?_digitChar hle (Nat.mod_lt n (by omega : 0 < radix))
      rw [readDigits_append, hfront, Option.bind_some]
      simp only [readDigits, hlast, Nat.div_add_mod']

/-- Zeros in front are worth nothing. -/
lemma readDigits_paddedDigits (hradix : 1 < radix) (hle : radix ≤ 16) (zeros n : Nat) :
    readDigits radix 0 (paddedDigits radix zeros n) = some n := by
  induction zeros with
  | zero => exact readDigits_toDigits hradix hle n
  | succ zeros ih =>
    have hzero : digit? radix '0' = some 0 := digit?_digitChar hle (Nat.lt_trans Nat.one_pos hradix)
    rw [paddedDigits, List.replicate_succ, List.cons_append, readDigits, hzero]
    simp only [Nat.zero_mul, Nat.zero_add]
    exact ih

/-- **The digits of a number denote it, if 64 bits hold it**, and nothing otherwise. -/
theorem number?_paddedDigits (hradix : 1 < radix) (hle : radix ≤ 16) (zeros n : Nat) :
    number? radix (paddedDigits radix zeros n) =
      if n < 0x8000000000000000 then some (Int64.ofNat n) else none := by
  have hne : (paddedDigits radix zeros n).isEmpty = false := by
    simpa using paddedDigits_ne_nil hradix
  simp only [number?, hne, Bool.false_eq_true, if_false, readDigits_paddedDigits hradix hle]

end Digits

/-! ### Spellings -/

/-- The ways in which a number is written. -/
inductive Spelling where
  | decimal
  /-- Hexadecimal digits between `0` and `h`. -/
  | hexH
  /-- Hexadecimal digits behind `0x`. -/
  | hexX
  /-- Hexadecimal digits behind `$`. -/
  | hexDollar
  /-- Binary digits in front of `b`. -/
  | binary
  deriving DecidableEq, Repr

namespace Spelling

/-- The radix of the digits. -/
def radix : Spelling → Nat
  | decimal => 10
  | hexH | hexX | hexDollar => 16
  | binary => 2

/-- The characters in front of the digits, and those behind them. -/
def ends : Spelling → List Char × List Char
  | decimal => ([], [])
  | hexH => (['0'], ['h'])
  | hexX => (['0', 'x'], [])
  | hexDollar => (['$'], [])
  | binary => ([], ['b'])

/-- The characters of a number, in lower case, with zeros in front of its digits. -/
def chars (spelling : Spelling) (zeros n : Nat) : List Char :=
  spelling.ends.1 ++ paddedDigits spelling.radix zeros n ++ spelling.ends.2

/-- Each radix is one for which there are digits. -/
lemma radix_bounds (spelling : Spelling) : 1 < spelling.radix ∧ spelling.radix ≤ 16 := by
  cases spelling <;> decide

/-- Digits of decimal numbers are no letters. -/
lemma splitRadix_decimal (zeros n : Nat) :
    splitRadix (paddedDigits 10 zeros n) = (10, paddedDigits 10 zeros n) := by
  have hdigit : ∀ c ∈ paddedDigits 10 zeros n, c.isDigit = true :=
    forall_mem_paddedDigits (by decide) (by decide)
  have hletter : ∀ c, c.isDigit = false → c ∉ paddedDigits 10 zeros n := by
    intro c hc hmem
    simp [hdigit c hmem] at hc
  have hlast : ∀ c, c.isDigit = false → (paddedDigits 10 zeros n).getLast? ≠ some c :=
    fun c hc heq => hletter c hc (List.mem_of_getLast? heq)
  unfold splitRadix
  split
  · next heq => exact absurd (heq ▸ by simp) (hletter 'x' (by decide))
  · simp [hlast 'h' (by decide), hlast 'b' (by decide)]

/-- Binary digits in front of a `b` are taken for such. -/
lemma splitRadix_binary (zeros n : Nat) :
    splitRadix (paddedDigits 2 zeros n ++ ['b']) = (2, paddedDigits 2 zeros n) := by
  have hdigit : ∀ c ∈ paddedDigits 2 zeros n, isBinaryDigit c = true :=
    forall_mem_paddedDigits (by decide) (by decide)
  have hletter : 'x' ∉ paddedDigits 2 zeros n ++ ['b'] := by
    intro hmem
    rcases List.mem_append.1 hmem with hmem | hmem
    · exact absurd (hdigit _ hmem) (by decide)
    · exact absurd hmem (by decide)
  have hlength : 0 < (paddedDigits 2 zeros n).length :=
    List.length_pos_iff.2 (paddedDigits_ne_nil (by decide))
  unfold splitRadix
  split
  · next heq => exact absurd (heq ▸ by simp) hletter
  · have hall : (paddedDigits 2 zeros n).all isBinaryDigit = true := List.all_eq_true.2 hdigit
    simp [hall, hlength]

/-- The spellings of numbers are in lower case. -/
lemma map_toLower_chars (spelling : Spelling) (zeros n : Nat) :
    (spelling.chars zeros n).map Char.toLower = spelling.chars zeros n := by
  obtain ⟨hradix, hle⟩ := spelling.radix_bounds
  have hlower : ∀ d < 16, (Nat.digitChar d).toLower = Nat.digitChar d := by decide
  have hdigits : (paddedDigits spelling.radix zeros n).map Char.toLower =
      paddedDigits spelling.radix zeros n := by
    conv_rhs => rw [← List.map_id (paddedDigits spelling.radix zeros n)]
    exact List.map_congr_left
      (forall_mem_paddedDigits hradix fun d hd => hlower d (by omega))
  have hends : spelling.ends.1.map Char.toLower = spelling.ends.1 ∧
      spelling.ends.2.map Char.toLower = spelling.ends.2 := by
    cases spelling <;> decide
  rw [chars, List.map_append, List.map_append, hdigits, hends.1, hends.2]

/-- The radix of a numeral without a dollar sign is found from its ends. -/
lemma splitRadix_chars {spelling : Spelling} (h : spelling ≠ hexDollar) (zeros n : Nat) :
    ∃ zeros', splitRadix (spelling.chars zeros n) =
      (spelling.radix, paddedDigits spelling.radix zeros' n) := by
  cases spelling with
  | decimal =>
    have hchars : chars decimal zeros n = paddedDigits 10 zeros n := by simp [chars, ends, radix]
    exact ⟨zeros, hchars ▸ splitRadix_decimal zeros n⟩
  | hexH =>
    -- the zero in front is one more leading zero
    have hhex : ∀ c ∈ paddedDigits 16 (zeros + 1) n, isHexDigit c :=
      forall_mem_paddedDigits (by decide) (by decide)
    exact ⟨zeros + 1, splitRadix_append hhex⟩
  | hexX => exact ⟨zeros, by simp [chars, ends, radix, splitRadix]⟩
  | hexDollar => exact absurd rfl h
  | binary => exact ⟨zeros, splitRadix_binary zeros n⟩

/-- **A numeral without a dollar sign denotes its number**, if 64 bits hold it. -/
theorem numeral?_chars {spelling : Spelling} (h : spelling ≠ hexDollar) (zeros n : Nat) :
    numeral? (spelling.chars zeros n) =
      if n < 0x8000000000000000 then some (Int64.ofNat n) else none := by
  obtain ⟨hradix, hle⟩ := spelling.radix_bounds
  obtain ⟨zeros', hsplit⟩ := splitRadix_chars h zeros n
  simp only [numeral?, map_toLower_chars, hsplit, number?_paddedDigits hradix hle]

/-- A numeral without a dollar sign is a word that starts with a digit. -/
lemma isWord_chars {spelling : Spelling} (h : spelling ≠ hexDollar) (zeros n : Nat) :
    (spelling.chars zeros n).head?.any Char.isDigit ∧
      ∀ c ∈ spelling.chars zeros n, isWordChar c := by
  obtain ⟨hradix, hle⟩ := spelling.radix_bounds
  have hword : ∀ d < 16, isWordChar (Nat.digitChar d) := by decide
  have hends : ∀ c ∈ spelling.ends.1 ++ spelling.ends.2, isWordChar c := by
    cases spelling with
    | hexDollar => exact absurd rfl h
    | decimal | hexH | hexX | binary => exact List.all_eq_true.1 (by decide)
  constructor
  · cases spelling with
    | decimal => exact any_head?_paddedDigits (by decide) (by decide) []
    | binary => exact any_head?_paddedDigits (by decide) (by decide) ['b']
    | hexH | hexX => rfl
    | hexDollar => exact absurd rfl h
  · intro c hc
    rw [chars, List.mem_append, List.mem_append] at hc
    rcases hc with (hfront | hdigit) | hback
    · exact hends c (List.mem_append_left _ hfront)
    · obtain ⟨d, hd, rfl⟩ := exists_of_mem_paddedDigits hradix hdigit
      exact hword d (by omega)
    · exact hends c (List.mem_append_right _ hback)

end Spelling

/-! ### Tokens -/

/-- The tokens of a text that is one numeral. -/
def numeralTokens (text : String) : (value? : Option Int64) → Except Error (List Token)
  | some value => .ok [⟨.number value, 0⟩]
  | none => .error (.invalidNumber text 0)

section Tokens

variable {text : String} {zeros n : Nat}

/-- A word that starts with a digit is one numeral. -/
lemma tokenize_word (hhead : text.toList.head?.any Char.isDigit)
    (hword : ∀ c ∈ text.toList, isWordChar c) :
    tokenize text = numeralTokens text (numeral? text.toList) := by
  have hback := String.ofList_toList (s := text)
  rw [tokenize]
  cases hcs : text.toList with
  | nil => simp [hcs] at hhead
  | cons c cs =>
    rw [hcs] at hhead hword hback
    have hdigit : c.isDigit := by simpa using hhead
    have htake : cs.takeWhile isWordChar = cs :=
      List.takeWhile_eq_self_iff.2 fun d hd => hword d (List.mem_cons_of_mem _ hd)
    rw [tokensFrom, if_neg (by simp [isBlank_of_isWordChar (hword c List.mem_cons_self)])]
    simp only [scan, if_pos hdigit, htake]
    cases numeral? (c :: cs) with
    | none => simp [numeralTokens, hback]
    | some value => simp [numeralTokens, tokensFrom]

/-- A dollar sign is one numeral with a word that starts with a hexadecimal digit. -/
lemma tokenize_dollar {word : List Char} (htext : text.toList = '$' :: word)
    (hhead : word.head?.any isHexDigit) (hword : ∀ c ∈ word, isWordChar c) :
    tokenize text = numeralTokens text (hexNumeral? word) := by
  have hback := String.ofList_toList (s := text)
  rw [htext] at hback
  rw [tokenize, htext]
  cases word with
  | nil => simp at hhead
  | cons c cs =>
    have hhex : isHexDigit c := by simpa using hhead
    have htake : (c :: cs).takeWhile isWordChar = c :: cs := List.takeWhile_eq_self_iff.2 hword
    have hscan : scan 0 '$' (c :: cs) = scanDollar 0 (c :: cs) := rfl
    rw [tokensFrom, if_neg (by decide), hscan]
    simp only [scanDollar, if_pos hhex, htake]
    cases hexNumeral? (c :: cs) with
    | none => simp [numeralTokens, hback]
    | some value => simp [numeralTokens, tokensFrom]

/-- A text is a word if it is one in lower case. -/
lemma isWord_of_map_toLower {p : Char → Bool} (hlower : ∀ c : Char, p c.toLower = p c)
    {cs ds : List Char} (h : cs.map Char.toLower = ds) (hhead : ds.head?.any p)
    (hword : ∀ c ∈ ds, isWordChar c) : cs.head?.any p ∧ ∀ c ∈ cs, isWordChar c := by
  subst h
  constructor
  · cases cs with
    | nil => simp at hhead
    | cons c cs => simpa [hlower] using hhead
  · intro c hc
    simpa using hword c.toLower (List.mem_map_of_mem hc)

/-- **Each spelling of a number is one numeral**, which denotes the number if 64 bits hold it. -/
theorem tokenize_of_map_toLower {spelling : Spelling}
    (htext : text.toList.map Char.toLower = spelling.chars zeros n) :
    tokenize text =
      numeralTokens text (if n < 0x8000000000000000 then some (Int64.ofNat n) else none) := by
  by_cases hdollar : spelling = .hexDollar
  · subst hdollar
    obtain ⟨c, word, hcs, hc, hword⟩ := List.map_eq_cons_iff.1 htext
    obtain rfl := (Text.toLower_eq_iff (by decide)).1 hc
    have hdigits : word.map Char.toLower = paddedDigits 16 zeros n := by
      simpa [Spelling.ends, Spelling.radix] using hword
    have hhead : (paddedDigits 16 zeros n ++ []).head?.any isHexDigit :=
      any_head?_paddedDigits (by decide) (by decide) []
    have hall : ∀ c ∈ paddedDigits 16 zeros n, isWordChar c :=
      forall_mem_paddedDigits (by decide) (by decide)
    rw [List.append_nil] at hhead
    obtain ⟨hfirst, hchars⟩ := isWord_of_map_toLower isHexDigit_toLower hdigits hhead hall
    rw [tokenize_dollar hcs hfirst hchars, ← hexNumeral?_toLower, hdigits, hexNumeral?,
      number?_paddedDigits (by decide) (by decide)]
  · obtain ⟨hhead, hall⟩ := Spelling.isWord_chars hdollar zeros n
    obtain ⟨hfirst, hchars⟩ := isWord_of_map_toLower isDigit_toLower htext hhead hall
    rw [tokenize_word hfirst hchars, ← numeral?_toLower, htext, Spelling.numeral?_chars hdollar]

/-- **Each spelling of a number is the token of that number**, if 64 bits hold it, and an invalid
numeral otherwise: its letters may be in either case, and its digits may have any zeros in front.

**Proof sketch.** In lower case the radix is found from the ends of the numeral, or it is behind a
dollar sign; the digits between the ends are worth the number. -/
theorem tokenize_spelling {spelling : Spelling}
    (htext : text.toList.map Char.toLower = spelling.chars zeros n) :
    (n < 2 ^ 63 → ∃ value : Int64, value.toInt = n ∧
      tokenize text = .ok [⟨.number value, 0⟩]) ∧
    (2 ^ 63 ≤ n → tokenize text = .error (.invalidNumber text 0)) := by
  have htokens := tokenize_of_map_toLower htext
  have hlimit : (2 : Nat) ^ 63 = 0x8000000000000000 := by decide
  rw [hlimit]
  constructor
  · intro hn
    rw [if_pos hn] at htokens
    exact ⟨Int64.ofNat n, toInt_ofNat hn, htokens⟩
  · intro hn
    rw [if_neg (Nat.not_lt.2 hn)] at htokens
    exact htokens

/-- The largest number that is held, in capitals, and the smallest one that is not. -/
theorem tokenize_spelling_limit :
    (∃ value : Int64, value.toInt = 9223372036854775807 ∧
      tokenize "007FFFFFFFFFFFFFFFH" = .ok [⟨.number value, 0⟩]) ∧
    tokenize "$8000000000000000" = .error (.invalidNumber "$8000000000000000" 0) := by
  have hlargest : "007FFFFFFFFFFFFFFFH".toList.map Char.toLower =
      Spelling.hexH.chars 1 9223372036854775807 := by decide +kernel
  have hsmallest : "$8000000000000000".toList.map Char.toLower =
      Spelling.hexDollar.chars 0 9223372036854775808 := by decide +kernel
  exact ⟨(tokenize_spelling hlargest).1 (by decide), (tokenize_spelling hsmallest).2 (by decide)⟩

end Tokens

end Z80.Expr
