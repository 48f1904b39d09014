import Z80.Proofs.Assembly.FoldedStatement
import Z80.Proofs.Assembly.LineBytes
import Z80.Proofs.Expr.Literal

/-!
# What the operands of a bytes directive come to

An operand of a bytes directive stands for its value as a byte, and if it has none and is a literal
then for the characters of the literal.  It comes to what it stands for, unless it merely starts and
ends with a quote and the same quote is in between: such an operand is taken for a string, although
it may be an expression of characters.

## Main definitions

* `Z80.Source.IsLiteral` — an operand that is one literal.
* `Z80.Source.IsSpliced` — an operand that is not, although it starts and ends like one.
* `Z80.StandsFor` — the bytes that an operand stands for.
* `Z80.Contributes` — the bytes that an operand comes to.

## Main results

* `Z80.contributes_of_operandBytes` — an operand comes to what it stands for unless it is spliced.
* `Z80.Assembly.data_contributions` — each bytes directive of an assembled text comes to the bytes
  of its operands, one behind the other.
* `Z80.Assembly.spliced_operand_has_value` — a spliced operand that does not come to its value.
-/

namespace Z80

open Z80.Expr (IsQuoted)

namespace Source

/-- An operand is one literal: the quote that it starts with is closed by its end. -/
def IsLiteral (operand : String) (chars : List Char) : Prop :=
  ∃ q ∉ chars, IsQuoted q chars operand

/-- An operand starts and ends with the same quote, but this quote is also in between, so that it
consists of several literals and what separates them.  The literal of the quote itself is none of
these. -/
def IsSpliced (operand : String) : Prop :=
  ∃ q chars, IsQuoted q chars operand ∧ q ∈ chars ∧ chars ≠ [q]

end Source

/-- The codes of ASCII characters. -/
def asciiCodes (chars : List Char) : List UInt8 :=
  chars.map fun c => UInt8.ofNat c.toNat

/-- What an operand of a bytes directive stands for: its value as a byte, or, if there is none and
it is one literal, the codes of its characters. -/
def StandsFor (scope : Expr.Scope) (operand : String) (bytes : List UInt8) : Prop :=
  match Expr.evaluateByte scope operand with
  | .ok b => bytes = [b]
  | .error _ => ∃ chars, Source.IsLiteral operand chars ∧ (∀ c ∈ chars, c.toNat < 128) ∧
      bytes = asciiCodes chars

/-- The bytes that an operand of a bytes directive comes to. -/
structure Contributes (scope : Expr.Scope) (operand : String) (bytes : List UInt8) : Prop where
  /-- They are what it stands for, unless it is spliced. -/
  standsFor_iff : StandsFor scope operand bytes ↔ ¬Source.IsSpliced operand
  /-- A string, which a spliced operand is taken for, comes to all characters between its ends. -/
  string : ∀ chars, Source.stringLiteral? operand = some chars →
    (∀ c ∈ chars, c.toNat < 128) ∧ bytes = asciiCodes chars

/-! ### Operands -/

section Operands

variable {scope : Expr.Scope} {operand : String} {operands : List String} {bytes : List UInt8}
  {chars : List Char}

/-- A string is the codes of its characters, which must be ASCII. -/
lemma stringBytes_eq_ok_iff :
    stringBytes chars = .ok bytes ↔ (∀ c ∈ chars, c.toNat < 128) ∧ bytes = asciiCodes chars := by
  induction chars generalizing bytes with
  | nil => simp [stringBytes, asciiCodes, eq_comm]
  | cons c chars ih =>
    rw [stringBytes, List.forall_mem_cons]
    by_cases hc : c.toNat < 128
    · rw [if_pos hc, map_eq_ok_iff]
      constructor
      · rintro ⟨rest, hrest, rfl⟩
        obtain ⟨hascii, rfl⟩ := ih.1 hrest
        exact ⟨⟨hc, hascii⟩, rfl⟩
      · rintro ⟨⟨-, hascii⟩, rfl⟩
        exact ⟨_, ih.2 ⟨hascii, rfl⟩, rfl⟩
    · simp [hc]

/-- What is spliced is a string. -/
lemma not_isSpliced_of_stringLiteral?_eq_none (h : Source.stringLiteral? operand = none) :
    ¬Source.IsSpliced operand := by
  rintro ⟨q, chars, hquoted, -, -⟩
  rw [stringLiteral?_eq_some_iff.2 ⟨q, hquoted⟩] at h
  cases h

/-- A string of one character is the code that it has as an expression. -/
lemma standsFor_singleton {q c : Char} (h : IsQuoted q [c] operand) (hc : c.toNat < 128) :
    StandsFor scope operand (asciiCodes [c]) := by
  rw [StandsFor, Expr.evaluateByte_of_isQuoted_singleton scope h hc]
  rfl

/-- A string of no character or several that is a literal has no value. -/
lemma standsFor_literal {q : Char} (h : IsQuoted q chars operand) (hclosed : q ∉ chars)
    (hlength : chars.length ≠ 1) (hascii : ∀ c ∈ chars, c.toNat < 128) :
    StandsFor scope operand (asciiCodes chars) := by
  obtain ⟨e, he⟩ := Expr.evaluateByte_of_isQuoted scope h hclosed hlength
  rw [StandsFor, he]
  exact ⟨chars, ⟨q, hclosed, h⟩, hascii, rfl⟩

/-- The characters of a spliced operand are not what it stands for: there are too many for one
value, and they are not those of a literal. -/
lemma not_standsFor_of_spliced {q : Char} (h : IsQuoted q chars operand) (hmem : q ∈ chars)
    (hne : chars ≠ [q]) : ¬StandsFor scope operand (asciiCodes chars) := by
  intro hstands
  unfold StandsFor at hstands
  split at hstands
  · -- one character that is the quote would be the literal of the quote
    cases chars with
    | nil => cases hmem
    | cons c chars =>
      cases chars with
      | nil =>
        obtain rfl := List.mem_singleton.1 hmem
        exact hne rfl
      | cons c' rest => simp [asciiCodes] at hstands
  · obtain ⟨chars', ⟨q', hclosed, h'⟩, -, -⟩ := hstands
    obtain ⟨rfl, hchars⟩ := List.cons.inj (h.2.symm.trans h'.2)
    obtain rfl := List.append_cancel_right hchars
    exact hclosed hmem

/-- **An operand comes to what it stands for unless it is spliced.** -/
theorem contributes_of_operandBytes (h : operandBytes scope operand = .ok bytes) :
    Contributes scope operand bytes := by
  unfold operandBytes at h
  cases hstring : Source.stringLiteral? operand with
  | none =>
    rw [hstring] at h
    obtain ⟨b, hb, rfl⟩ := map_eq_ok_iff.1 h
    have hstands : StandsFor scope operand [b] := by
      rw [StandsFor, liftExpr_eq_ok_iff.1 hb]
    refine ⟨iff_of_true hstands (not_isSpliced_of_stringLiteral?_eq_none hstring), ?_⟩
    intro chars hchars
    rw [hstring] at hchars
    cases hchars
  | some chars =>
    rw [hstring] at h
    obtain ⟨hascii, rfl⟩ := stringBytes_eq_ok_iff.1 h
    obtain ⟨q, hquoted⟩ := stringLiteral?_eq_some_iff.1 hstring
    refine ⟨⟨?_, fun hwhole => ?_⟩, ?_⟩
    · rintro hstands ⟨q', chars', hquoted', hmem, hne⟩
      obtain ⟨rfl, hchars⟩ := List.cons.inj (hquoted.2.symm.trans hquoted'.2)
      obtain rfl := List.append_cancel_right hchars
      exact not_standsFor_of_spliced hquoted hmem hne hstands
    · by_cases hlength : chars.length = 1
      · obtain ⟨c, rfl⟩ := List.length_eq_one_iff.1 hlength
        exact standsFor_singleton hquoted (hascii c List.mem_cons_self)
      · refine standsFor_literal hquoted (fun hmem => hwhole ⟨q, chars, hquoted, hmem, ?_⟩) hlength
          hascii
        rintro rfl
        exact hlength rfl
    · intro chars' hchars'
      obtain rfl := Option.some.inj (hstring.symm.trans hchars')
      exact ⟨hascii, rfl⟩

/-- The bytes of several operands are those of each, one behind the other. -/
lemma exists_contributes_of_dataBytes (h : dataBytes scope operands = .ok bytes) :
    ∃ contributions, List.Forall₂ (Contributes scope) operands contributions ∧
      bytes = contributions.flatten := by
  induction operands generalizing bytes with
  | nil =>
    obtain rfl := Except.ok.inj h
    exact ⟨[], .nil, rfl⟩
  | cons operand more ih =>
    obtain ⟨first, hfirst, h⟩ := bind_eq_ok_iff.1 h
    obtain ⟨rest, hrest, h⟩ := bind_eq_ok_iff.1 h
    obtain rfl := Except.ok.inj h
    obtain ⟨contributions, hmore, rfl⟩ := ih hrest
    exact ⟨first :: contributions, .cons (contributes_of_operandBytes hfirst) hmore, rfl⟩

end Operands

/-! ### Lines -/

namespace Assembly

variable {options : Assembly.Options} {source : String} {assembly : Assembly} {layout : Layout}

/-- **A bytes directive comes to the bytes of its operands.**  Each operand comes to its value under
the final names and with the address of the line as the location, or, if it has none, to the
characters of the literal that it is; a spliced operand comes to something else.  These bytes, one
behind the other, are held as those of the line, and the first pass has moved on by their number. -/
theorem data_contributions (h : assemble options source = .ok assembly)
    (hlayout : Layout.ofSource options.segment source = .ok layout) {k : Nat}
    {line : PreparedLine} (hline : layout.lines[k]? = some line) {operands : List String}
    (hstatement : line.statement = .bytes operands) :
    ∃ before after contributions, Layout.ComesBy options.segment source k line before after ∧
      List.Forall₂ (Contributes (assembly.symbols.scope before.segments.location)) operands
        contributions ∧
      assembly.Holds k line before.segments.location contributions.flatten ∧
      after.segments =
        before.segments.advance (UInt16.ofNat contributions.flatten.length) := by
  obtain ⟨before, after, emission?, hcomes, hemission, hheld⟩ := exists_comesBy h hlayout hline
  rw [hstatement] at hemission
  obtain ⟨bytes, hbytes, hemission⟩ := bind_eq_ok_iff.1 hemission
  obtain rfl := Except.ok.inj hemission
  obtain ⟨contributions, hcontributions, rfl⟩ := exists_contributes_of_dataBytes hbytes
  obtain ⟨hholds, hafter⟩ := hheld _ rfl
  exact ⟨before, after, contributions, hcomes, hcontributions, hholds, hafter⟩

/-- A string and an expression with a character, which is replaced by its code, come to three bytes,
which are held as those of their line. -/
theorem data_contributions_text :
    ∃ (assembly : Assembly) (line : PreparedLine) (address : UInt16)
      (contributions : List (List UInt8)),
      assemble {} " db \"Hi\",'a'+1" = .ok assembly ∧ line.number = 1 ∧
      List.Forall₂ (Contributes (assembly.symbols.scope address)) ["\"Hi\"", "061h+1"]
        contributions ∧
      contributions.flatten = [0x48, 0x69, 0x62] ∧
      assembly.Holds 0 line address contributions.flatten := by
  obtain ⟨assembly, h⟩ :=
    exists_of_isOk (x := assemble {} " db \"Hi\",'a'+1") (by decide +kernel)
  obtain ⟨layout, hlayout⟩ :=
    exists_of_isOk (x := Layout.ofSource .code " db \"Hi\",'a'+1") (by decide +kernel)
  have hfirst : ((Layout.ofSource .code " db \"Hi\",'a'+1").toOption.bind fun layout =>
      layout.lines[0]?.map fun line => (line.number, line.statement)) =
        some (1, .bytes ["\"Hi\"", "061h+1"]) := by
    decide +kernel
  have hlisted : ((assemble {} " db \"Hi\",'a'+1").toOption.bind fun assembly =>
      assembly.listing.entries[0]?.map (·.bytes)) = some [0x48, 0x69, 0x62] := by
    decide +kernel
  rw [hlayout] at hfirst
  rw [h] at hlisted
  obtain ⟨line, hline, hparts⟩ := Option.map_eq_some_iff.1 hfirst
  obtain ⟨hnumber, hstatement⟩ := Prod.mk.inj hparts
  obtain ⟨before, after, contributions, -, hcontributions, hholds, -⟩ :=
    @data_contributions {} _ assembly layout h hlayout _ line hline _ hstatement
  obtain ⟨entry, hentry, hbytes⟩ := Option.map_eq_some_iff.1 hlisted
  obtain ⟨entry', hentry', -, -, hheld⟩ := hholds.entry
  obtain rfl := Option.some.inj (hentry.symm.trans hentry')
  rw [hstatement] at hheld
  exact ⟨assembly, line, before.segments.location, contributions, h, hnumber, hcontributions,
    hheld.symm.trans hbytes, hholds⟩

/-- The sum of two characters has a value and comes to what stands between its ends. -/
theorem spliced_operand_has_value :
    (assemble {} " db \"a\"+\"b\"").toOption.map (fun assembly =>
      (assembly.listing.entries.map fun entry => (entry.line, entry.address, entry.bytes),
        (Expr.evaluateByte (assembly.symbols.scope 0) "\"a\"+\"b\"").toOption)) =
      some ([(1, some 0, [0x61, 0x22, 0x2B, 0x22, 0x62])], some 0xC3) := by
  decide +kernel

end Assembly

end Z80
