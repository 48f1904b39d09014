import Mathlib.Data.List.Basic
import Z80.Catalog.Decode
import Z80.Catalog.Match

/-!
# Roles of operands

Whether an operand is read as the name of a condition, as a number of a fixed choice or as
anything else is settled by the mnemonic, the number of operands and the place of the operand:
the `c` of `jr c,o` is a condition and that of `inc c` a register.  Every template of the catalog
keeps to these roles.

## Main definitions

* `Z80.Role` — how an operand is read, with `Z80.Role.at`.
* `Z80.Slot.fits` — whether a slot may stand where operands have a role.
* `Z80.Template.isRegular` — whether every slot of a template fits its role.

## Main results

* `Z80.Descriptor.mem_all_iff` — the catalog holds the descriptors that look-up finds.
* `Z80.Descriptor.isRegular_of_mem_all` — every template of the catalog is regular.

## Design

The catalog is checked by evaluation.  Comparing short texts is the slow part of that, so a text
is compared by its code, the number whose digits are its bytes.
-/

namespace Z80

/-! ### Codes of texts -/

/-- Bytes as the digits of a number, the first one lowest. -/
def byteCode : List UInt8 → Nat
  | [] => 0
  | b :: bs => b.toNat + 1 + 257 * byteCode bs

/-- Bytes can be read off their code. -/
lemma byteCode_injective : Function.Injective byteCode := by
  intro s
  induction s with
  | nil =>
    intro t h
    cases t with
    | nil => rfl
    | cons c cs => simp only [byteCode] at h; omega
  | cons b bs ih =>
    intro t h
    cases t with
    | nil => simp only [byteCode] at h; omega
    | cons c cs =>
      have hb := b.toNat_lt
      have hc := c.toNat_lt
      simp only [byteCode] at h
      have hhead : b.toNat = c.toNat := by omega
      have htail : byteCode bs = byteCode cs := by omega
      rw [UInt8.toNat_inj.1 hhead, ih htail]

/-- The code of a text. -/
def textCode (s : String) : Nat :=
  byteCode s.toByteArray.data.toList

/-- A text can be read off its code. -/
lemma textCode_injective : Function.Injective textCode := fun _ _ h =>
  String.toByteArray_inj.1 (ByteArray.ext (Array.toList_inj.1 (byteCode_injective h)))

/-- Whether a text is among some names. -/
def isAmong (names : List String) (s : String) : Bool :=
  (names.map textCode).contains (textCode s)

/-- Comparing codes is comparing texts. -/
lemma mem_of_isAmong {names : List String} {s : String} (h : isAmong names s) : s ∈ names := by
  simp only [isAmong, List.contains_iff_mem, List.mem_map] at h
  obtain ⟨name, hmem, hcode⟩ := h
  rwa [← textCode_injective hcode]

/-! ### Roles -/

/-- How an operand is read. -/
inductive Role where
  /-- As the name of a condition. -/
  | condition
  /-- As a number from 0 to 7, or a register. -/
  | digit
  /-- As the address of a restart. -/
  | restart
  /-- As the target of a jump: a register in parentheses or an expression. -/
  | target
  /-- As a register, a memory cell or an expression. -/
  | general
  deriving DecidableEq, Repr

/-- The role of the operand at a place among so many operands of a mnemonic. -/
def Role.at : Mnemonic → (count place : Nat) → Role
  | .bit, _, 0 | .res, _, 0 | .set, _, 0 | .im, _, 0 | .out, _, 1 => digit
  | .rst, _, 0 => restart
  | .jp, 2, 0 | .jr, 2, 0 | .call, 2, 0 | .ret, _, 0 => condition
  | .jp, 1, 0 => target
  | _, _, _ => general

/-- The names of the conditions. -/
def conditionNames : List String :=
  ["nz", "z", "nc", "c", "po", "pe", "p", "m"]

/-- The spellings of registers, alone and in parentheses. -/
def registerForms : List String :=
  registerNames ++ ["(bc)", "(de)", "(hl)", "(sp)", "(c)"]

/-- The spellings of registers as the target of a jump. -/
def targetForms : List String :=
  ["(hl)", "(ix)", "(iy)"]

/-- The spellings of the numbers of bits. -/
def digitNames : List String :=
  ["0", "1", "2", "3", "4", "5", "6", "7"]

/-- The spellings of the restart addresses. -/
def restartNames : List String :=
  ["00h", "08h", "10h", "18h", "20h", "28h", "30h", "38h"]

/-- Whether a slot of a mnemonic may stand where operands have a role.  No instruction can have a
cell in memory as an operand where parentheses around an expression say nothing. -/
def Slot.fits (mnemonic : Mnemonic) : Role → Slot → Bool
  | .condition, named s => isAmong conditionNames s
  | .digit, named s => isAmong registerNames s
  | .digit, literal s => isAmong digitNames s
  | .restart, literal s => isAmong restartNames s
  | .target, named s => isAmong targetForms s
  | .target, word => true
  | .general, named s => isAmong registerForms s
  | .general, port | .general, address => mnemonic ≠ .cp
  | .general, byte | .general, word | .general, relative | .general, indexed _ => true
  | _, _ => false

/-- Whether slots fit the roles of the places from one on. -/
def Slot.fitFrom (mnemonic : Mnemonic) (count : Nat) : (place : Nat) → List Slot → Bool
  | _, [] => true
  | place, slot :: slots =>
    slot.fits mnemonic (.at mnemonic count place) && fitFrom mnemonic count (place + 1) slots

/-- Whether every slot of a template fits its role. -/
def Template.isRegular (template : Template) : Bool :=
  Slot.fitFrom template.mnemonic template.slots.length 0 template.slots

/-- The templates by which an instruction is written. -/
def Descriptor.spellings (d : Descriptor) : List Template :=
  d.template :: d.alternate.toList

/-- A spelling by choice is a spelling. -/
lemma Descriptor.mem_spellings_of_spelling? {d : Descriptor} {alternate : Bool} {t : Template}
    (h : d.spelling? alternate = some t) : t ∈ d.spellings := by
  cases alternate with
  | false => simp_all [spelling?, spellings]
  | true => simp_all [spelling?, spellings]

/-! ### The catalog -/

lemma mem_allBytes (b : UInt8) : b ∈ allBytes :=
  List.mem_map.2 ⟨b.toNat, List.mem_range.2 b.toNat_lt, by simp⟩

lemma Space.mem_all (space : Space) : space ∈ Space.all := by
  match space with
  | .main | .bit | .misc | .index .ix | .index .iy | .indexBit .ix | .indexBit .iy => decide

/-- A test that holds for every byte of every space in turn holds for each. -/
lemma forall_opcode {P : Space → UInt8 → Bool}
    (h : (Space.all.all fun space => allBytes.all (P space)) = true) (space : Space) (b : UInt8) :
    P space b = true :=
  List.all_eq_true.1 (List.all_eq_true.1 h space space.mem_all) b (mem_allBytes b)

namespace Descriptor

/-- A descriptor says where it was looked up. -/
lemma of_lookup? {space : Space} {b : UInt8} {d : Descriptor} (h : lookup? space b = some d) :
    d.space = space ∧ d.byte = b := by
  obtain ⟨form, -, rfl⟩ := Option.map_eq_some_iff.1 h
  exact ⟨rfl, rfl⟩

/-- Every byte that has a form behind an index prefix is listed. -/
lemma mem_order_of_index {i : Index} {b : UInt8} (h : (Form.index i b).isSome) :
    b ∈ (Space.index i).order := by
  have key : (!(Form.index i b).isSome || indexLeading.contains b || decide (0x40 ≤ b)) = true := by
    refine List.all_eq_true.1 (?_ : (allBytes.all fun b =>
      !(Form.index i b).isSome || indexLeading.contains b || decide (0x40 ≤ b)) = true) b
      (mem_allBytes b)
    cases i <;> decide +kernel
  simp only [h, Bool.not_true, Bool.false_or, Bool.or_eq_true, List.contains_iff_mem,
    decide_eq_true_eq] at key
  simpa [Space.order, mem_allBytes] using key

/-- Every byte that has a form is in the order of its space. -/
lemma mem_order_of_lookup? {space : Space} {b : UInt8} (h : (Form.lookup? space b).isSome) :
    b ∈ space.order := by
  cases space with
  | index i => exact mem_order_of_index h
  | main | bit | misc | indexBit i => exact mem_allBytes b

/-- **The catalog holds the descriptors that look-up finds.** -/
theorem mem_all_iff {d : Descriptor} : d ∈ all ↔ lookup? d.space d.byte = some d := by
  simp only [all, Space.descriptors, List.mem_flatMap, List.mem_filterMap]
  constructor
  · rintro ⟨space, -, b, -, h⟩
    obtain ⟨rfl, rfl⟩ := of_lookup? h
    exact h
  · intro h
    obtain ⟨form, hform, -⟩ := Option.map_eq_some_iff.1 h
    exact ⟨d.space, d.space.mem_all, d.byte, mem_order_of_lookup? (by simp [hform]), h⟩

/-- A descriptor that was decoded is one of the catalog, and its space and byte stand there. -/
lemma of_decode {read : UInt16 → UInt8} {address : UInt16} {d : Descriptor}
    (h : decode read address = .ok d) :
    d ∈ all ∧ Space.startingAt read address = d.space ∧ d.space.opcodeAt read address = d.byte := by
  simp only [decode] at h
  split at h
  · next d' hlookup =>
    obtain rfl := Except.ok.inj h
    obtain ⟨hspace, hbyte⟩ := of_lookup? hlookup
    refine ⟨mem_all_iff.2 ?_, hspace.symm, ?_⟩
    · rwa [hspace, hbyte]
    · rw [hspace, hbyte]
  · simp at h

/-- A test that every form passes is passed by every descriptor of the catalog. -/
lemma of_mem_all {P : Descriptor → Bool}
    (h : (Space.all.all fun space => allBytes.all fun b => (lookup? space b).all P) = true)
    {d : Descriptor} (hd : d ∈ all) : P d = true := by
  have key := forall_opcode (P := fun space b => (lookup? space b).all P) h d.space d.byte
  simpa [mem_all_iff.1 hd] using key

/-- **Every template of the catalog is regular.** -/
theorem isRegular_of_mem_all {d : Descriptor} (hd : d ∈ all) {t : Template}
    (ht : t ∈ d.spellings) : t.isRegular :=
  List.all_eq_true.1
    (of_mem_all (P := fun d => d.spellings.all Template.isRegular) (by decide +kernel) hd) t ht

end Descriptor

end Z80
