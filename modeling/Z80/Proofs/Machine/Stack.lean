import Z80.Machine.Basic
import Z80.Proofs.Addresses

/-!
# Words on the stack

The stack grows downward: each word lies in the two bytes below the one that was pushed before it,
and the addresses wrap.  As long as the words fit into memory they do not touch each other, so they
come back in the opposite order.

## Main definitions

* `Z80.Machine.pushWords`, `Z80.Machine.popWords` — several words put on the stack and taken from
  it.
* `Z80.bytesBelow` — the addresses of some words below an address.

## Main results

* `Z80.Machine.read_pushWords` — words that are pushed change nothing but the bytes below the stack
  pointer.
* `Z80.Machine.popWords_pushWords` — words that were pushed are popped in the opposite order.
-/

namespace Z80

/-- The addresses of a number of words below an address. -/
def bytesBelow (address : UInt16) (words : Nat) : List UInt16 :=
  addressesFrom (address - UInt16.ofNat (2 * words)) (2 * words)

/-- The word next below an address lies above the others. -/
lemma bytesBelow_succ (address : UInt16) (words : Nat) :
    bytesBelow address (words + 1) =
      bytesBelow (address - 2) words ++ [address - 2, address - 1] := by
  have hlowest : address - UInt16.ofNat (2 * (words + 1)) =
      address - 2 - UInt16.ofNat (2 * words) := by
    rw [Nat.mul_succ, UInt16.ofNat_add]
    grind
  have hnext : address - 2 - UInt16.ofNat (2 * words) + UInt16.ofNat (2 * words) = address - 2 :=
    UInt16.sub_add_cancel _ _
  have habove : address - 2 + 1 = address - 1 := by grind
  rw [bytesBelow, bytesBelow, hlowest, Nat.mul_succ, addressesFrom_add, hnext]
  simp [addressesFrom, habove]

/-- One word takes two bytes. -/
lemma mem_bytesBelow_one {address a : UInt16} :
    a ∈ bytesBelow address 1 ↔ a = address - 2 ∨ a = address - 1 := by
  rw [bytesBelow_succ]
  simp [bytesBelow, addressesFrom]

/-- The word next below an address is none of the others, if all of them fit into memory. -/
lemma notMem_bytesBelow {address : UInt16} {words : Nat} (h : words < 32768) :
    address - 2 ∉ bytesBelow (address - 2) words ∧
      address - 1 ∉ bytesBelow (address - 2) words := by
  have hnodup : (bytesBelow address (words + 1)).Nodup :=
    nodup_addressesFrom (by rw [addressCount, UInt16.size]; omega)
  rw [bytesBelow_succ, List.nodup_append] at hnodup
  obtain ⟨-, -, hdiffer⟩ := hnodup
  exact ⟨fun hmem => hdiffer _ hmem _ List.mem_cons_self rfl,
    fun hmem => hdiffer _ hmem _ (List.mem_cons_of_mem _ List.mem_cons_self) rfl⟩

namespace Machine

section Push

variable {M : Type} [Bus M]

/-- The machine with words put on the stack one behind the other. -/
def pushWords (m : Machine M) (words : List UInt16) : Machine M :=
  words.foldl pushWord m

/-- A number of words taken from the stack, the topmost one first, and the machine without them. -/
def popWords (m : Machine M) : (count : Nat) → List UInt16 × Machine M
  | 0 => ([], m)
  | count + 1 =>
    let (words, m) := m.popWords count
    let (w, m) := m.popWord
    (words ++ [w], m)

/-- The machine with other memory. -/
def withMemory (m : Machine M) (memory : M) : Machine M :=
  ⟨m.registers, memory, m.board, m.isHalted⟩

end Push

variable (m : Machine Memory)

/-- A word that is pushed changes two bytes. -/
lemma read_pushWord (w address : UInt16) :
    (m.pushWord w).read address =
      if address = m.registers.sp - 2 then lowByte w
      else if address = m.registers.sp - 1 then highByte w
      else m.read address := by
  have habove : m.registers.sp - 2 + 1 = m.registers.sp - 1 := by grind
  have hdiffer : m.registers.sp - 1 ≠ m.registers.sp - 2 := by grind
  change ((m.memory.write _ _).write _ _).read address = _
  rw [Memory.read_write, Memory.read_write, habove]
  by_cases hlow : address = m.registers.sp - 2
  · subst hlow
    simp [hdiffer]
  · simp only [hlow, Ne.symm hlow, ↓reduceIte, eq_comm]
    rfl

/-- The word that was pushed last is on top. -/
lemma popWord_pushWord {memory : Memory} {w : UInt16}
    (hlow : memory.read (m.registers.sp - 2) = lowByte w)
    (hhigh : memory.read (m.registers.sp - 1) = highByte w) :
    ((m.pushWord w).withMemory memory).popWord = (w, m.withMemory memory) := by
  have habove : m.registers.sp - 2 + 1 = m.registers.sp - 1 := by grind
  have hsp : m.registers.sp - 2 + 2 = m.registers.sp := UInt16.sub_add_cancel _ _
  refine Prod.ext ?_ ?_
  · change wordOf (memory.read (m.registers.sp - 2)) (memory.read (m.registers.sp - 2 + 1)) = w
    rw [habove, hlow, hhigh, wordOf_bytes]
  · obtain ⟨registers, _, board, isHalted⟩ := m
    change (⟨{ registers with sp := registers.sp - 2 + 2 }, memory, board, isHalted⟩ :
      Machine Memory) = _
    rw [hsp]
    rfl

/-- **Words that are pushed change nothing but the bytes below the stack pointer.** -/
theorem read_pushWords (words : List UInt16) {address : UInt16}
    (h : address ∉ bytesBelow m.registers.sp words.length) :
    (m.pushWords words).read address = m.read address := by
  induction words generalizing m with
  | nil => rfl
  | cons w words ih =>
    rw [List.length_cons, bytesBelow_succ, List.mem_append, not_or] at h
    obtain ⟨hbelow, hnext⟩ := h
    simp only [List.mem_cons, List.not_mem_nil, or_false, not_or] at hnext
    rw [pushWords, List.foldl_cons]
    refine (ih (m.pushWord w) hbelow).trans ?_
    rw [read_pushWord, if_neg hnext.1, if_neg hnext.2]

/-- **Words that were pushed are popped in the opposite order**, if they fit into memory; behind
this everything but memory is as it was.

**Proof sketch.** Induction on the words.  Those behind the first lie below it, so it is still there
when they have been popped. -/
theorem popWords_pushWords (words : List UInt16) (h : words.length ≤ 32768) :
    (m.pushWords words).popWords words.length =
      (words.reverse, m.withMemory (m.pushWords words).memory) := by
  induction words generalizing m with
  | nil => rfl
  | cons w words ih =>
    obtain ⟨hlow, hhigh⟩ := @notMem_bytesBelow m.registers.sp words.length h
    have hdiffer : m.registers.sp - 1 ≠ m.registers.sp - 2 := by grind
    have hsp : (m.pushWord w).registers.sp = m.registers.sp - 2 := rfl
    rw [← hsp] at hhigh hlow
    have hlow' : ((m.pushWord w).pushWords words).read (m.registers.sp - 2) = lowByte w := by
      rw [← hsp, (m.pushWord w).read_pushWords words hlow, hsp, read_pushWord, if_pos rfl]
    have hhigh' : ((m.pushWord w).pushWords words).read (m.registers.sp - 1) = highByte w := by
      rw [(m.pushWord w).read_pushWords words hhigh, read_pushWord, if_neg hdiffer, if_pos rfl]
    rw [List.length_cons, popWords, pushWords, List.foldl_cons, ← pushWords,
      ih _ (Nat.le_of_succ_le h)]
    simp only [m.popWord_pushWord hlow' hhigh', List.reverse_cons]

end Machine

end Z80
