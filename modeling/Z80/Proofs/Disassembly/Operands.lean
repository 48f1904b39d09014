import Z80.Proofs.Catalog.DecodeBack
import Z80.Proofs.Disassembly.Relative
import Z80.Proofs.Source.Statement
import Z80.Proofs.Text.Case

/-!
# Operands of a disassembly read back

An operand that was taken from the bytes of an instruction is written as a text which the slot it
was taken from accepts, and which is encoded as the bytes it was taken from.

## Main definitions

* `Z80.IsLabelName` — the names that a disassembly gives to addresses.
* `Z80.IsLabelling` — labels with such names.
* `Z80.Slot.IsSpelled` — a slot that is spelled out as in the catalog.

## Main results

* `Z80.Operand.shape_numeral`, `Z80.Operand.shape_relativeText`, `Z80.Operand.shape_enclosed`,
  `Z80.Operand.shape_indexedText` — the shapes of operands as they are written.
* `Z80.Instruction.isPiece_valueText` — a written operand is a piece of a statement.
* `Z80.Instruction.accepts_valueText` — it is accepted by its slot.
* `Z80.Instruction.encode_valueText` — it is encoded as the bytes it was taken from, unless it is a
  relative target without a label that leads past the last address.
-/

namespace Z80

open Z80.Expr (IsNumeral IsName)
open Operand (Shape)
open Source (IsPiece isPieceChar isEqu)

/-! ### Labels -/

/-- A name that a disassembly gives to an address. -/
structure IsLabelName (name : String) : Prop where
  isName : IsName name.toList
  front : name.toList.take 4 = ['l', 'b', 'l', '_']

/-- A choice of labels with such names. -/
def IsLabelling (label : UInt16 → Option String) : Prop :=
  ∀ (address : UInt16) (name : String), label address = some name → IsLabelName name

/-- Where there are no labels, all of them have their form. -/
lemma isLabelling_none : IsLabelling fun _ => none := by
  intro address name hname
  simp at hname

/-! ### Shapes -/

namespace Operand

/-- A numeral consists of characters of operands. -/
lemma isPieceChar_numeral {cs : List Char} {n : Nat} (h : IsNumeral cs n) :
    ∀ c ∈ cs, isPieceChar c := by
  intro c hc
  have hword := Expr.isWordChar_of_isAlphanum (h.alphanum c hc)
  simp [isPieceChar, hword]

/-- A character of operands in lower case. -/
lemma isPieceChar_toLower (c : Char) : isPieceChar c.toLower = isPieceChar c :=
  Text.apply_toLower isPieceChar (by decide +kernel) c

/-- A name consists of characters of operands. -/
lemma isPieceChar_name {cs : List Char} (h : IsName cs) : ∀ c ∈ cs, isPieceChar c := by
  intro c hc
  have hword := h.isWordChar c hc
  simp [isPieceChar, hword]

/-- Without blanks the compact text of an operand is the text in lower case. -/
lemma compactChars_eq {s : String} (h : ∀ c ∈ s.toList, Text.isBlank c = false) :
    compactChars s = s.toList.map Char.toLower := by
  have hall : s.toList.filter (fun c => !Text.isBlank c) = s.toList := by
    rw [List.filter_eq_self]
    intro c hc
    simp [h c hc]
  rw [compactChars, hall]

/-- The parts of an operand without blanks. -/
lemma ofText_eq {s : String} (h : ∀ c ∈ s.toList, Text.isBlank c = false) :
    ofText s = ⟨s, String.ofList (s.toList.map Char.toLower),
      .ofCompact (s.toList.map Char.toLower)⟩ := by
  have htrim : Text.trimmed s = s := Text.trimmed_eq_self (Text.isTrimmed_of_forall h)
  simp only [ofText, htrim, compactChars_eq h]

/-- Characters that are those of no register, whatever their case, are no register. -/
lemma isRegister_eq_false {cs : List Char} (hblank : ∀ c ∈ cs, Text.isBlank c = false)
    (hnone : ∀ r ∈ registerNames, r.toList ≠ cs.map Char.toLower) :
    isRegister (String.ofList cs) = false := by
  have htrim : Text.trimmed (String.ofList cs) = String.ofList cs :=
    Text.trimmed_eq_self (by rw [String.toList_ofList]; exact Text.isTrimmed_of_forall hblank)
  rw [isRegister, htrim, Text.lower, String.toList_ofList]
  rw [Bool.eq_false_iff, Ne, List.contains_iff_mem]
  intro hmem
  exact hnone _ hmem String.toList_ofList

/-- A relative target consists of characters of operands, the first of which is `$`. -/
lemma toList_relativeText (address target : UInt16) :
    (∀ c ∈ (relativeText address target).toList, isPieceChar c) ∧
      (relativeText address target).toList.head? = some '$' := by
  rcases relativeText_cases address target with ⟨htext, -⟩ | ⟨isNegative, b, htext, -⟩
  · rw [htext]
    exact ⟨List.all_eq_true.1 (by decide), by decide⟩
  · have hsign : ∀ c ∈ (if isNegative then "-" else "+").toList, isPieceChar c :=
      List.all_eq_true.1 (by cases isNegative <;> decide)
    rw [htext, String.toList_append, String.toList_append]
    refine ⟨fun c hc => ?_, rfl⟩
    rw [List.mem_append, List.mem_append] at hc
    rcases hc with hhere | hmem | hmem
    · rw [List.mem_singleton.1 hhere]
      decide
    · exact hsign c hmem
    · exact isPieceChar_numeral (Text.isNumeral_byteNumeral b) c hmem

/-- No register starts with a digit, with `$` or with the front of a label. -/
lemma registerNames_heads : ∀ r ∈ registerNames, r.toList.head?.any Char.isDigit = false ∧
    r.toList.head? ≠ some '$' ∧ r.toList.take 4 ≠ ['l', 'b', 'l', '_'] := by
  decide +kernel

/-- The closing parenthesis at the end closes the one that is open. -/
lemma closesAtEnd_append {cs : List Char} (h : ∀ c ∈ cs, isPieceChar c) :
    closesAtEnd 0 (cs ++ [')']) = true := by
  induction cs with
  | nil => rfl
  | cons c cs ih =>
    have hc := h c List.mem_cons_self
    have hopening : c ≠ '(' := by
      rintro rfl
      exact absurd hc (by decide)
    have hclosing : c ≠ ')' := by
      rintro rfl
      exact absurd hc (by decide)
    rw [List.cons_append, closesAtEnd]
    · exact ih fun d hd => h d (List.mem_cons_of_mem _ hd)
    all_goals simp_all

/-- Parentheses around characters of operands enclose them. -/
lemma enclosed?_append {cs : List Char} (h : ∀ c ∈ cs, isPieceChar c) :
    enclosed? ('(' :: cs ++ [')']) = some cs := by
  rw [List.cons_append, enclosed?, if_pos (closesAtEnd_append h)]
  simp

/-- Characters of operands without parentheses are not enclosed. -/
lemma enclosed?_eq_none {cs : List Char} (h : ∀ c ∈ cs, isPieceChar c) : enclosed? cs = none := by
  unfold enclosed?
  split
  · next cs heq =>
    exact absurd (h '(' List.mem_cons_self) (by decide)
  · rfl

/-- A numeral is no register. -/
lemma isRegister_numeral {cs : List Char} {n : Nat} (h : IsNumeral cs n) :
    isRegister (String.ofList cs) = false := by
  refine isRegister_eq_false (fun c hc => ?_) fun r hr heq => ?_
  · exact Expr.isBlank_of_isWordChar (Expr.isWordChar_of_isAlphanum (h.alphanum c hc))
  · have hhead := (registerNames_heads r hr).1
    rw [heq, h.map_toLower.head] at hhead
    simp at hhead

/-- A label is no register. -/
lemma isRegister_label {name : String} (h : IsLabelName name) : isRegister name = false := by
  rw [← String.ofList_toList (s := name)]
  refine isRegister_eq_false (fun c hc => ?_) fun r hr heq => ?_
  · exact Expr.isBlank_of_isWordChar (h.isName.isWordChar c hc)
  · have hfront := (registerNames_heads r hr).2.2
    rw [heq, h.isName.lower] at hfront
    exact hfront h.front

/-- A relative target is no register. -/
lemma isRegister_relativeText (address target : UInt16) :
    isRegister (String.ofList ((relativeText address target).toList.map Char.toLower)) = false := by
  obtain ⟨hpiece, hhead⟩ := toList_relativeText address target
  refine isRegister_eq_false (fun c hc => ?_) fun r hr heq => ?_
  · obtain ⟨d, hd, rfl⟩ := List.mem_map.1 hc
    rw [Text.isBlank_toLower]
    exact Source.isBlank_of_isPieceChar (hpiece d hd)
  · have hfront := (registerNames_heads r hr).2.1
    rw [heq, List.head?_map, List.head?_map, hhead] at hfront
    exact hfront rfl

/-- Characters of operands that are no register are a plain operand. -/
lemma shape_plain {s : String} (hpiece : ∀ c ∈ s.toList, isPieceChar c)
    (hregister : isRegister (String.ofList (s.toList.map Char.toLower)) = false) :
    (ofText s).shape = .plain := by
  have hlower : ∀ c ∈ s.toList.map Char.toLower, isPieceChar c := by
    intro c hc
    obtain ⟨d, hd, rfl⟩ := List.mem_map.1 hc
    rw [isPieceChar_toLower]
    exact hpiece d hd
  rw [ofText_eq fun c hc => Source.isBlank_of_isPieceChar (hpiece c hc)]
  simp only [Shape.ofCompact, enclosed?_eq_none hlower, hregister, Bool.false_eq_true, if_false]

/-- A numeral is a plain operand. -/
lemma shape_numeral {s : String} {n : Nat} (h : IsNumeral s.toList n) : (ofText s).shape = .plain :=
  shape_plain (isPieceChar_numeral h) (isRegister_numeral h.map_toLower)

/-- A label is a plain operand. -/
lemma shape_label {name : String} (h : IsLabelName name) : (ofText name).shape = .plain := by
  refine shape_plain (isPieceChar_name h.isName) ?_
  rw [h.isName.lower, String.ofList_toList]
  exact isRegister_label h

/-- A relative target is a plain operand. -/
lemma shape_relativeText (address target : UInt16) :
    (ofText (relativeText address target)).shape = .plain :=
  shape_plain (toList_relativeText address target).1 (isRegister_relativeText address target)

/-- A numeral in parentheses is an enclosed operand. -/
lemma shape_enclosed {s : String} {n : Nat} (h : IsNumeral s.toList n) :
    (ofText ("(" ++ s ++ ")")).shape = .enclosed := by
  have hlower := h.map_toLower
  have hchars : ("(" ++ s ++ ")").toList = '(' :: s.toList ++ [')'] := by simp
  have hblank := (IsPiece.enclosed (isPieceChar_numeral h)).isBlank_eq_false
  rw [← hchars] at hblank
  have hcompact : ('(' :: s.toList ++ [')']).map Char.toLower =
      '(' :: s.toList.map Char.toLower ++ [')'] := by
    rw [List.map_append, List.map_cons]
    rfl
  have hindexed : indexed? (s.toList.map Char.toLower) = none := by
    have hhead := hlower.head
    unfold indexed?
    split
    · next heq => simp [heq] at hhead
    · next heq => simp [heq] at hhead
    · rfl
  rw [ofText_eq hblank, hchars, hcompact]
  simp only [Shape.ofCompact, enclosed?_append (isPieceChar_numeral hlower), hindexed,
    isRegister_numeral hlower, Bool.false_eq_true, if_false]

/-- The size of a displacement. -/
def displacementSize (o : Int8) : UInt8 :=
  if o < 0 then (-o).toUInt8 else o.toUInt8

/-- The sign of a displacement. -/
def displacementSign (o : Int8) : String :=
  if decide (o < 0) then "-" else "+"

/-- The characters of an indexed operand. -/
lemma toList_indexedText (index : Index) (o : Int8) :
    (indexedText index o).toList = '(' :: (index.name.toList ++ ((displacementSign o).toList ++
      (Text.byteNumeral (displacementSize o)).toList)) ++ [')'] := by
  simp [indexedText, displacementSign, displacementSize]

/-- Between the parentheses of an indexed operand there are characters of operands. -/
lemma isPieceChar_indexed (index : Index) (o : Int8) :
    ∀ c ∈ index.name.toList ++ ((displacementSign o).toList ++
      (Text.byteNumeral (displacementSize o)).toList), isPieceChar c := by
  have hname : ∀ c ∈ index.name.toList, isPieceChar c :=
    List.all_eq_true.1 (by cases index <;> decide)
  have hsign : ∀ c ∈ (displacementSign o).toList, isPieceChar c := by
    unfold displacementSign
    refine List.all_eq_true.1 ?_
    split <;> decide
  intro c hc
  rw [List.mem_append, List.mem_append] at hc
  rcases hc with hmem | hmem | hmem
  · exact hname c hmem
  · exact hsign c hmem
  · exact isPieceChar_numeral (Text.isNumeral_byteNumeral _) c hmem

/-- **An indexed operand has its index register and displacement.** -/
lemma shape_indexedText (index : Index) (o : Int8) :
    (ofText (indexedText index o)).shape = .indexed index (some (displacementSign o ++
      String.ofList ((Text.byteNumeral (displacementSize o)).toList.map Char.toLower))) := by
  have hpiece := isPieceChar_indexed index o
  have hblank := (IsPiece.enclosed hpiece).isBlank_eq_false
  rw [← toList_indexedText] at hblank
  have hlower := (Text.isNumeral_byteNumeral (displacementSize o)).map_toLower
  have hname : index.name.toList.map Char.toLower = index.name.toList := by cases index <;> decide
  have hsign : (displacementSign o).toList.map Char.toLower = (displacementSign o).toList := by
    unfold displacementSign
    split <;> decide
  have hcompact : (indexedText index o).toList.map Char.toLower =
      '(' :: (index.name.toList ++ ((displacementSign o).toList ++
        (Text.byteNumeral (displacementSize o)).toList.map Char.toLower)) ++ [')'] := by
    rw [toList_indexedText, List.map_append, List.map_cons, List.map_append, List.map_append, hname,
      hsign]
    rfl
  have hinner : ∀ c ∈ index.name.toList ++ ((displacementSign o).toList ++
      (Text.byteNumeral (displacementSize o)).toList.map Char.toLower), isPieceChar c := by
    intro c hc
    rw [List.mem_append, List.mem_append] at hc
    rcases hc with hmem | hmem | hmem
    · exact hpiece c (List.mem_append_left _ hmem)
    · exact hpiece c (List.mem_append_right _ (List.mem_append_left _ hmem))
    · exact isPieceChar_numeral hlower c hmem
  have hindexed : indexed? (index.name.toList ++ ((displacementSign o).toList ++
      (Text.byteNumeral (displacementSize o)).toList.map Char.toLower)) =
        some (index, some (displacementSign o ++
          String.ofList ((Text.byteNumeral (displacementSize o)).toList.map Char.toLower))) := by
    have hjoin : displacementSign o ++
        String.ofList ((Text.byteNumeral (displacementSize o)).toList.map Char.toLower) =
          String.ofList ((displacementSign o).toList ++
            (Text.byteNumeral (displacementSize o)).toList.map Char.toLower) := by
      rw [String.ofList_append, String.ofList_toList]
    rw [hjoin]
    unfold displacementSign
    cases index <;> split <;> rfl
  rw [ofText_eq hblank, hcompact]
  simp only [Shape.ofCompact, enclosed?_append hinner, hindexed]

end Operand

/-! ### What templates spell out -/

/-- The names that templates spell out. -/
def spelledNames : List String :=
  conditionNames ++ registerForms ++ targetForms

/-- The numbers that templates spell out. -/
def spelledNumbers : List String :=
  digitNames ++ restartNames

/-- The slots that stand for a value, and those that spell out what templates spell out. -/
def Slot.IsSpelled : Slot → Prop
  | named s => s ∈ spelledNames
  | literal s => s ∈ spelledNumbers
  | byte | word | relative | port | address | indexed _ => True

/-- A slot that fits a role is spelled out as in the catalog. -/
lemma Slot.isSpelled_of_fits {mnemonic : Mnemonic} {role : Role} {slot : Slot}
    (h : slot.fits mnemonic role) : slot.IsSpelled := by
  cases slot with
  | named s =>
    simp only [IsSpelled, spelledNames, registerForms, List.mem_append]
    cases role with
    | condition => exact .inl (.inl (mem_of_isAmong h))
    | digit => exact .inl (.inr (.inl (mem_of_isAmong h)))
    | restart => simp [fits] at h
    | target => exact .inr (mem_of_isAmong h)
    | general => exact .inl (.inr (List.mem_append.1 (mem_of_isAmong h)))
  | literal s =>
    simp only [IsSpelled, spelledNumbers, List.mem_append]
    cases role with
    | digit => exact .inl (mem_of_isAmong h)
    | restart => exact .inr (mem_of_isAmong h)
    | condition | target | general => simp [fits] at h
  | byte | word | relative | port | address | indexed => trivial

/-- Every slot of a regular template is spelled out as in the catalog. -/
lemma Template.isSpelled_of_isRegular {template : Template} (h : template.isRegular) :
    ∀ slot ∈ template.slots, slot.IsSpelled := by
  have key : ∀ (slots : List Slot) (place : Nat),
      Slot.fitFrom template.mnemonic template.slots.length place slots →
        ∀ slot ∈ slots, slot.IsSpelled := by
    intro slots
    induction slots with
    | nil => simp
    | cons first slots ih =>
      intro place hfit
      rw [Slot.fitFrom, Bool.and_eq_true] at hfit
      rw [List.forall_mem_cons]
      exact ⟨Slot.isSpelled_of_fits hfit.1, ih (place + 1) hfit.2⟩
  exact key template.slots 0 h

/-- What templates spell out is its own compact text, and but for the shadow register it is a piece
of a statement. -/
lemma spelledNames_read : ∀ s ∈ spelledNames,
    (Operand.ofText s).compact = s ∧ isEqu s.toList = false ∧ s.toList ≠ [] ∧
      (s ≠ "af'" → s.toList.all isPieceChar ∨
        s.toList = '(' :: s.toList.tail.dropLast ++ [')'] ∧
          s.toList.tail.dropLast.all isPieceChar) := by
  decide +kernel

/-- Numbers that templates spell out are numerals. -/
lemma spelledNumbers_read : ∀ s ∈ spelledNumbers, ∃ n ∈ List.range 64,
    s.toList.head?.any Char.isDigit ∧ s.toList.all Char.isAlphanum ∧
      Expr.numeral? s.toList = some (Int64.ofNat n) := by
  decide +kernel

lemma isNumeral_of_mem_spelledNumbers {s : String} (h : s ∈ spelledNumbers) :
    ∃ n, IsNumeral s.toList n := by
  obtain ⟨n, -, hhead, halphanum, hvalue⟩ := spelledNumbers_read s h
  exact ⟨n, hhead, by simpa using halphanum, hvalue⟩

/-! ### Pieces -/

/-- A numeral is a piece of a statement. -/
lemma isPiece_numeral {cs : List Char} {n : Nat} (h : IsNumeral cs n) : IsPiece cs where
  ne_nil := by
    rintro rfl
    exact absurd h.head (by simp)
  shape := .inl (Operand.isPieceChar_numeral h)
  not_isEqu := by
    have hhead := h.map_toLower.head
    rw [isEqu, decide_eq_false_iff_not]
    intro heq
    rw [heq] at hhead
    exact absurd hhead (by decide)

/-- A label is a piece of a statement. -/
lemma isPiece_label {name : String} (h : IsLabelName name) : IsPiece name.toList where
  ne_nil := by
    intro heq
    have hfront := h.front
    rw [heq] at hfront
    simp at hfront
  shape := .inl (Operand.isPieceChar_name h.isName)
  not_isEqu := by
    have hfront := h.front
    rw [isEqu, h.isName.lower, decide_eq_false_iff_not]
    intro heq
    rw [heq] at hfront
    exact absurd hfront (by decide)

/-- A relative target is a piece of a statement. -/
lemma isPiece_relativeText (address target : UInt16) :
    IsPiece (relativeText address target).toList := by
  obtain ⟨hpiece, hhead⟩ := Operand.toList_relativeText address target
  refine ⟨fun hnil => by simp [hnil] at hhead, .inl hpiece, ?_⟩
  rw [isEqu, decide_eq_false_iff_not]
  intro heq
  have hlower := congrArg List.head? heq
  rw [List.head?_map, hhead] at hlower
  exact absurd hlower (by decide)

/-- A numeral in parentheses is a piece of a statement. -/
lemma isPiece_enclosed {s : String} {n : Nat} (h : IsNumeral s.toList n) :
    IsPiece ("(" ++ s ++ ")").toList := by
  have key := IsPiece.enclosed (Operand.isPieceChar_numeral h)
  simpa using key

/-- What templates spell out is a piece of a statement, but for the shadow register. -/
lemma isPiece_named {s : String} (h : s ∈ spelledNames) (haf : s ≠ "af'") : IsPiece s.toList := by
  obtain ⟨-, hequ, hne, hchars⟩ := spelledNames_read s h
  refine ⟨hne, ?_, hequ⟩
  rcases hchars haf with hfree | ⟨heq, hinner⟩
  · exact .inl (by simpa using hfree)
  · exact .inr ⟨_, heq, by simpa using hinner⟩

/-- A piece of a statement is the text of the operand that it is. -/
lemma text_ofText {s : String} (h : IsPiece s.toList) : (Operand.ofText s).text = s :=
  Text.trimmed_eq_self (Text.isTrimmed_of_forall h.isBlank_eq_false)

namespace Instruction

variable {i : Instruction} {label : UInt16 → Option String} {slot : Slot} {next : UInt16}
  {bytes : List UInt8}

/-- A word is written as a numeral or as its label. -/
lemma valueText_word (i : Instruction) (label : UInt16 → Option String) (w : UInt16) :
    i.valueText label (.word w) = Text.wordNumeral w ∨
      label w = some (i.valueText label (.word w)) := by
  simp only [valueText]
  by_cases htarget : i.target? = some w
  · rw [if_pos htarget]
    cases hname : label w with
    | none => exact .inl rfl
    | some name => exact .inr rfl
  · exact .inl (if_neg htarget)

/-- A relative target is written as its distance or as its label. -/
lemma valueText_relative (i : Instruction) (label : UInt16 → Option String) (target : UInt16) :
    i.valueText label (.relative target) = relativeText i.address target ∨
      label target = some (i.valueText label (.relative target)) := by
  simp only [valueText]
  cases hname : label target with
  | none => exact .inl rfl
  | some name => exact .inr rfl

/-- **An operand is written as a piece of a statement.** -/
theorem isPiece_valueText (hslot : slot.IsSpelled) (hlabel : IsLabelling label)
    (haf : slot ≠ .named "af'") :
    IsPiece (i.valueText label (slot.value next bytes)).toList := by
  cases slot with
  | named s => exact isPiece_named hslot fun heq => haf (congrArg Slot.named heq)
  | literal s =>
    obtain ⟨n, hn⟩ := isNumeral_of_mem_spelledNumbers hslot
    exact isPiece_numeral hn
  | byte => exact isPiece_numeral (Text.isNumeral_byteNumeral _)
  | port => exact isPiece_enclosed (Text.isNumeral_byteNumeral _)
  | address => exact isPiece_enclosed (Text.isNumeral_wordNumeral _)
  | word =>
    rcases valueText_word i label (wordOf (bytes.headD 0) (bytes.tail.headD 0)) with hnum | hname
    · rw [Slot.value, hnum]
      exact isPiece_numeral (Text.isNumeral_wordNumeral _)
    · exact isPiece_label (hlabel _ _ hname)
  | relative =>
    rcases valueText_relative i label (next + signExtend (bytes.headD 0)) with hnone | hname
    · rw [Slot.value, hnone]
      exact isPiece_relativeText _ _
    · exact isPiece_label (hlabel _ _ hname)
  | indexed index =>
    rw [Slot.value, valueText, Operand.toList_indexedText]
    exact IsPiece.enclosed (Operand.isPieceChar_indexed _ _)

/-- **A written operand is accepted by its slot**, whatever is known of names. -/
theorem accepts_valueText (scope : Expr.Scope) (mnemonic : Mnemonic) (hslot : slot.IsSpelled)
    (hlabel : IsLabelling label) :
    slot.accepts scope mnemonic (Operand.ofText (i.valueText label (slot.value next bytes))) := by
  cases slot with
  | named s => simpa [Slot.accepts, Slot.value, valueText] using (spelledNames_read s hslot).1
  | literal s =>
    obtain ⟨n, hn⟩ := isNumeral_of_mem_spelledNumbers hslot
    have hshape := Operand.shape_numeral hn
    have htext := text_ofText (isPiece_numeral hn)
    simp [Slot.accepts, Slot.value, valueText, hshape, Shape.isRegisterForm, literalMatches, htext,
      Expr.evaluate_numeral _ hn]
  | byte =>
    have hshape := Operand.shape_numeral (Text.isNumeral_byteNumeral (bytes.headD 0))
    simp only [Slot.accepts, Slot.value, valueText, hshape]
  | port =>
    have hshape := Operand.shape_enclosed (Text.isNumeral_byteNumeral (bytes.headD 0))
    simp only [Slot.accepts, Slot.value, valueText, hshape, decide_true]
  | address =>
    have hshape := Operand.shape_enclosed
      (Text.isNumeral_wordNumeral (wordOf (bytes.headD 0) (bytes.tail.headD 0)))
    simp only [Slot.accepts, Slot.value, valueText, hshape, decide_true]
  | word =>
    rcases valueText_word i label (wordOf (bytes.headD 0) (bytes.tail.headD 0)) with hnum | hname
    · have hshape := Operand.shape_numeral
        (Text.isNumeral_wordNumeral (wordOf (bytes.headD 0) (bytes.tail.headD 0)))
      simp only [Slot.accepts, Slot.value, hnum, hshape]
    · simp only [Slot.accepts, Slot.value, Operand.shape_label (hlabel _ _ hname)]
  | relative =>
    rcases valueText_relative i label (next + signExtend (bytes.headD 0)) with hnone | hname
    · simp only [Slot.accepts, Slot.value, hnone, Operand.shape_relativeText]
    · simp only [Slot.accepts, Slot.value, Operand.shape_label (hlabel _ _ hname)]
  | indexed index =>
    simp [Slot.accepts, Slot.value, valueText, Operand.shape_indexedText]

/-- A displacement has the value of its sign and size. -/
lemma toInt_displacement (b : UInt8) :
    (if decide (b.toInt8 < 0) then -Int64.ofNat (Operand.displacementSize b.toInt8).toNat
      else Int64.ofNat (Operand.displacementSize b.toInt8).toNat).toInt = b.toInt8.toInt := by
  have key := List.all_eq_true.1 (by decide +kernel : (allBytes.all fun b =>
    (if decide (b.toInt8 < 0) then -Int64.ofNat (Operand.displacementSize b.toInt8).toNat
      else Int64.ofNat (Operand.displacementSize b.toInt8).toNat).toInt == b.toInt8.toInt) = true)
    b (mem_allBytes b)
  simpa using key

/-- An indexed operand is encoded as the byte of its displacement. -/
lemma displacementByte_indexedText (scope : Expr.Scope) (index : Index) (b : UInt8) :
    displacementByte scope (Operand.ofText (indexedText index b.toInt8)) = .ok b := by
  have hnumeral : IsNumeral (String.ofList ((Text.byteNumeral
      (Operand.displacementSize b.toInt8)).toList.map Char.toLower)).toList
        (Operand.displacementSize b.toInt8).toNat := by
    rw [String.toList_ofList]
    exact (Text.isNumeral_byteNumeral _).map_toLower
  have hvalue := Expr.evaluate_signed scope (decide (b.toInt8 < 0)) hnumeral
  have hbyte := Expr.evaluateDisplacement_eq_ok hvalue (toInt_displacement b)
  simp only [displacementByte, Operand.shape_indexedText]
  rw [Operand.displacementSign, hbyte]
  rfl

/-- Two bytes stand in front of a list that is long enough. -/
lemma exists_cons_cons {bytes : List UInt8} (h : 2 ≤ bytes.length) :
    ∃ low high rest, bytes = low :: high :: rest := by
  obtain ⟨low, more, rfl⟩ := List.exists_cons_of_length_pos (Nat.lt_of_lt_of_le Nat.zero_lt_two h)
  have hmore : 0 < more.length := by
    rw [List.length_cons] at h
    omega
  obtain ⟨high, rest, rfl⟩ := List.exists_cons_of_length_pos hmore
  exact ⟨low, high, rest, rfl⟩

/-- A relative target that is written as a label, or as a distance that does not lead past the last
address. -/
def Reaches (i : Instruction) (label : UInt16 → Option String) (target : UInt16) : Prop :=
  (label target).isSome ∨ relativePassesEnd i.address target = false

/-- A relative target that reaches is encoded as the byte it was taken from. -/
lemma relativeByte_valueText {scope : Expr.Scope} {b : UInt8} (hhere : scope.here = i.address)
    (hlabel : IsLabelling label) (hknows : scope.Knows label)
    (hreaches : i.Reaches label (scope.here + 1 + 1 + signExtend b)) :
    relativeByte scope (scope.here + 1)
      (i.valueText label (.relative (scope.here + 1 + 1 + signExtend b))) = .ok b := by
  rw [valueText]
  cases hname : label (scope.here + 1 + 1 + signExtend b) with
  | some name =>
    have hlabelName := hlabel _ _ hname
    exact relativeByte_eq_ok (Expr.isPositionDependent_name hlabelName.isName)
      (Expr.evaluateWord_eq_ok (Expr.evaluate_name hlabelName.isName (hknows _ _ hname)))
  | none =>
    rw [Reaches, hname, ← hhere] at hreaches
    rw [Option.getD_none, ← hhere]
    exact relativeByte_relativeText (by simpa using hreaches)

/-- **A written operand is encoded as the bytes it was taken from**, where labels have the values
of their addresses, unless it is a relative target that does not reach. -/
theorem encode_valueText {scope : Expr.Scope} {here : UInt16} (hhere : scope.here = i.address)
    (hlabel : IsLabelling label) (hknows : scope.Knows label) (hwidth : slot.width ≤ bytes.length)
    (hreaches : ∀ target, slot.value next bytes = .relative target → i.Reaches label target)
    (hnext : slot = .relative → scope.here + 1 = here ∧ here + 1 = next) :
    slot.encode scope here (Operand.ofText (i.valueText label (slot.value next bytes))) =
      .ok (bytes.take slot.width) := by
  cases slot with
  | named s => rfl
  | literal s => rfl
  | byte =>
    obtain ⟨b, rest, rfl⟩ := List.exists_cons_of_length_pos hwidth
    have hnumeral := Text.isNumeral_byteNumeral b
    have hvalue := Expr.evaluateByte_eq_ok (Expr.evaluate_numeral scope hnumeral)
    have htext := text_ofText (isPiece_numeral hnumeral)
    simp only [Slot.encode, Slot.value, valueText, List.headD_cons, htext, hvalue]
    rfl
  | port =>
    obtain ⟨b, rest, rfl⟩ := List.exists_cons_of_length_pos hwidth
    have hnumeral := Text.isNumeral_byteNumeral b
    have hvalue := Expr.evaluateByte_eq_ok (Expr.evaluate_enclosed scope hnumeral)
    have htext := text_ofText (isPiece_enclosed hnumeral)
    simp only [Slot.encode, Slot.value, valueText, List.headD_cons, htext, hvalue]
    rfl
  | address =>
    obtain ⟨low, high, rest, rfl⟩ := exists_cons_cons hwidth
    have hnumeral := Text.isNumeral_wordNumeral (wordOf low high)
    have hvalue := Expr.evaluateWord_eq_ok (Expr.evaluate_enclosed scope hnumeral)
    have htext := text_ofText (isPiece_enclosed hnumeral)
    simp only [Slot.encode, Slot.value, valueText, List.headD_cons, List.tail_cons, htext, hvalue,
      liftExpr, Except.map, lowByte_wordOf, highByte_wordOf]
    rfl
  | word =>
    obtain ⟨low, high, rest, rfl⟩ := exists_cons_cons hwidth
    have hword : Expr.evaluateWord scope (Operand.ofText
        (i.valueText label (.word (wordOf low high)))).text = .ok (wordOf low high) := by
      rcases valueText_word i label (wordOf low high) with hnum | hname
      · have hnumeral := Text.isNumeral_wordNumeral (wordOf low high)
        rw [hnum, text_ofText (isPiece_numeral hnumeral)]
        exact Expr.evaluateWord_eq_ok (Expr.evaluate_numeral scope hnumeral)
      · have hlabelName := hlabel _ _ hname
        rw [text_ofText (isPiece_label hlabelName)]
        exact Expr.evaluateWord_eq_ok (Expr.evaluate_name hlabelName.isName (hknows _ _ hname))
    simp only [Slot.encode, Slot.value, List.headD_cons, List.tail_cons, hword, liftExpr,
      Except.map, lowByte_wordOf, highByte_wordOf]
    rfl
  | relative =>
    obtain ⟨b, rest, rfl⟩ := List.exists_cons_of_length_pos hwidth
    obtain ⟨rfl, rfl⟩ := hnext rfl
    have hbyte := relativeByte_valueText hhere hlabel hknows (hreaches _ rfl)
    have htext := text_ofText (@isPiece_valueText i label .relative (scope.here + 1 + 1)
      (b :: rest) trivial hlabel (by simp))
    rw [List.headD_cons] at hbyte
    simp only [Slot.encode, Slot.value, List.headD_cons] at htext ⊢
    rw [htext, hbyte]
    rfl
  | indexed index =>
    obtain ⟨b, rest, rfl⟩ := List.exists_cons_of_length_pos hwidth
    have hbyte := displacementByte_indexedText scope index b
    simp only [Slot.encode, Slot.value, valueText, List.headD_cons, hbyte]
    rfl

end Instruction

end Z80
