import Z80.Disassembly.Buffer
import Z80.Proofs.Addresses

/-!
# Decoding in a buffer

An instruction is found in a buffer if the bytes there decode and all of them are in the buffer.
All of memory is a buffer of its own, in which every address has its byte.

## Main definitions

* `Z80.Memory.buffer` — memory as a buffer.

## Main results

* `Z80.Buffer.slice?_eq_some_iff` — consecutive bytes of a buffer.
* `Z80.Buffer.decode?_eq_some_iff` — when an instruction is found.
* `Z80.Buffer.readBytes_ofList` — the bytes of a buffer are read from its first address on.
* `Z80.Memory.decode?_buffer` — in memory an instruction is found wherever one decodes.
-/

namespace Z80

namespace Buffer

/-- An address is in a buffer if it has a byte there. -/
lemma contains_iff {b : Buffer} {address : UInt16} :
    b.contains address ↔ (b.get? address).isSome := by
  rw [contains, get?, size, decide_eq_true_iff, Option.isSome_iff_exists]
  simp [Array.getElem?_eq_some_iff]

/-- A byte of a buffer is read. -/
lemma get?_eq_some_iff {b : Buffer} {address : UInt16} {x : UInt8} :
    b.get? address = some x ↔ b.contains address ∧ b.read address = x := by
  rw [contains_iff, read]
  cases b.get? address <;> simp

/-- **Consecutive bytes are those that are read**, if all of them are in the buffer. -/
theorem slice?_eq_some_iff {b : Buffer} {address : UInt16} {count : Nat} {bytes : List UInt8} :
    b.slice? address count = some bytes ↔
      (∀ a ∈ addressesFrom address count, b.contains a) ∧
        readBytes b.read address count = bytes := by
  induction count generalizing address bytes with
  | zero => simp [slice?, addressesFrom, readBytes]
  | succ count ih =>
    simp only [slice?, addressesFrom, readBytes, List.forall_mem_cons]
    constructor
    · intro h
      split at h
      · next x xs hx hxs =>
        obtain rfl := Option.some.inj h
        obtain ⟨hfirst, rfl⟩ := get?_eq_some_iff.1 hx
        obtain ⟨hrest, rfl⟩ := ih.1 hxs
        exact ⟨⟨hfirst, hrest⟩, rfl⟩
      · simp at h
    · rintro ⟨⟨hfirst, hrest⟩, rfl⟩
      rw [get?_eq_some_iff.2 ⟨hfirst, rfl⟩, ih.2 ⟨hrest, rfl⟩]

/-- **An instruction is found where one decodes and all of its bytes are in the buffer.** -/
theorem decode?_eq_some_iff {b : Buffer} {address : UInt16} {i : Instruction} :
    b.decode? address = some i ↔
      Descriptor.decode b.read address = .ok i.descriptor ∧ i.address = address ∧
        (∀ a ∈ addressesFrom address i.descriptor.size, b.contains a) ∧
        readBytes b.read address i.descriptor.size = i.bytes := by
  rw [← slice?_eq_some_iff]
  unfold decode?
  constructor
  · intro h
    split at h
    · split at h
      · next d hd =>
        obtain ⟨bytes, hbytes, rfl⟩ := Option.map_eq_some_iff.1 h
        exact ⟨hd, rfl, hbytes⟩
      · simp at h
    · simp at h
  · rintro ⟨hd, rfl, hbytes⟩
    have hfirst : b.contains i.address := by
      refine (slice?_eq_some_iff.1 hbytes).1 _ (mem_addressesFrom.2 ⟨0, ?_, by simp⟩)
      rw [Descriptor.size]
      omega
    simp only [hfirst, hd, hbytes, ↓reduceIte, Option.map_some]

section OfList

variable {base : UInt16} {bytes : List UInt8}

/-- All bytes are in the buffer, if there are not too many. -/
lemma size_ofList (h : bytes.length ≤ addressCount) : (ofList base bytes).size = bytes.length := by
  simp only [size, ofList, List.take_of_length_le h, List.size_toArray]

/-- The byte at an address is the one as many places behind the first. -/
lemma get?_ofList (h : bytes.length ≤ addressCount) (address : UInt16) :
    (ofList base bytes).get? address = bytes[(address - base).toNat]? := by
  simp only [get?, offset, ofList, List.take_of_length_le h, List.getElem?_toArray]

/-- **The bytes of a buffer are read from its first address on.** -/
theorem readBytes_ofList (h : bytes.length ≤ addressCount) :
    readBytes (ofList base bytes).read base bytes.length = bytes := by
  apply List.ext_getElem?
  intro i
  by_cases hi : i < bytes.length
  · have hlt : i < addressCount := Nat.lt_of_lt_of_le hi h
    have hsub : base + UInt16.ofNat i - base = UInt16.ofNat i := by grind
    rw [readBytes_eq_map, List.getElem?_map, getElem?_addressesFrom hi, Option.map_some, read,
      get?_ofList h, hsub, UInt16.toNat_ofNat_of_lt' hlt, List.getElem?_eq_getElem hi,
      Option.getD_some]
  · have hlength := length_readBytes (ofList base bytes).read base bytes.length
    rw [List.getElem?_eq_none (by omega), List.getElem?_eq_none (by omega)]

end OfList

end Buffer

namespace Memory

/-- Consecutive bytes of memory are those that are read. -/
lemma slice_eq_readBytes (m : Memory) (address : UInt16) (count : Nat) :
    m.slice address count = readBytes m.read address count := by
  induction count generalizing address with
  | zero => rfl
  | succ count ih => rw [slice, readBytes, ih]

/-- All of memory as a buffer. -/
def buffer (m : Memory) : Buffer :=
  .ofList 0 (m.slice 0 addressCount)

/-- Every address of memory has its byte in the buffer. -/
lemma get?_buffer (m : Memory) (address : UInt16) :
    m.buffer.get? address = some (m.read address) := by
  have hlt : address.toNat < addressCount := address.toNat_lt
  have hlength : (m.slice 0 addressCount).length ≤ addressCount := by
    rw [slice_eq_readBytes]
    exact Nat.le_of_eq (length_readBytes ..)
  rw [buffer, Buffer.get?_ofList hlength, slice_eq_readBytes, UInt16.sub_zero, readBytes_eq_map,
    List.getElem?_map, getElem?_addressesFrom hlt]
  simp

/-- **In memory an instruction is found wherever one decodes.** -/
theorem decode?_buffer {m : Memory} {address : UInt16} {d : Descriptor}
    (h : Descriptor.decode m.read address = .ok d) :
    m.buffer.decode? address = some ⟨address, readBytes m.read address d.size, d⟩ := by
  have hread : m.buffer.read = m.read := by
    funext a
    rw [Buffer.read, get?_buffer]
    rfl
  refine Buffer.decode?_eq_some_iff.2 ⟨by rwa [hread], rfl, fun a _ => ?_, by rw [hread]⟩
  rw [Buffer.contains_iff, get?_buffer]
  rfl

end Memory

end Z80
