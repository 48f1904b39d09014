import Mathlib.Data.List.Nodup
import Mathlib.Data.List.Perm.Lattice
import Z80.Assembly.Image
import Z80.Catalog.Decode

/-!
# Consecutive addresses

Bytes that are written one behind the other occupy consecutive addresses, which wrap past the last
one.  As long as no address comes twice, what is written there is read back, and nothing else
changes.

## Main definitions

* `Z80.addressesFrom` — a number of consecutive addresses.
* `Z80.cellsFrom` — consecutive bytes with their addresses.
* `Z80.Memory.writeAll` — memory with bytes at any addresses.
* `Z80.OriginMap.assignAll` — several addresses for one line.

## Main results

* `Z80.mem_addressesFrom`, `Z80.nodup_addressesFrom` — which addresses these are.
* `Z80.Memory.readBytes_load`, `Z80.Memory.read_load_of_notMem` — bytes that were loaded, and
  others.
* `Z80.Memory.load_eq_writeAll` — loading is writing the bytes with their addresses.
* `Z80.Image.claim_eq_ok_iff` — bytes are claimed if all of their addresses are free and different.
* `Z80.OriginMap.length_addressesOf`, `Z80.OriginMap.size_eq_length` — counting the addresses of a
  line, and of all lines.
-/

namespace Z80

/-! ### Addresses -/

/-- The `count` addresses from one on. -/
def addressesFrom (address : UInt16) : (count : Nat) → List UInt16
  | 0 => []
  | count + 1 => address :: addressesFrom (address + 1) count

@[simp]
lemma length_addressesFrom (address : UInt16) (count : Nat) :
    (addressesFrom address count).length = count := by
  induction count generalizing address with
  | zero => rfl
  | succ count ih => rw [addressesFrom, List.length_cons, ih]

/-- The address one behind another that is `i` behind a third. -/
lemma add_ofNat_succ (address : UInt16) (i : Nat) :
    address + UInt16.ofNat (i + 1) = address + 1 + UInt16.ofNat i := by
  rw [UInt16.ofNat_add, UInt16.add_assoc, UInt16.add_comm (UInt16.ofNat i)]
  rfl

/-- The addresses from one on are those a number of places behind it. -/
lemma mem_addressesFrom {address a : UInt16} {count : Nat} :
    a ∈ addressesFrom address count ↔ ∃ i < count, a = address + UInt16.ofNat i := by
  induction count generalizing address with
  | zero => simp [addressesFrom]
  | succ count ih =>
    rw [addressesFrom, List.mem_cons, ih]
    constructor
    · rintro (rfl | ⟨i, hi, rfl⟩)
      · exact ⟨0, Nat.succ_pos _, by simp⟩
      · exact ⟨i + 1, Nat.succ_lt_succ hi, (add_ofNat_succ _ _).symm⟩
    · rintro ⟨i, hi, rfl⟩
      cases i with
      | zero => exact .inl (by simp)
      | succ i => exact .inr ⟨i, Nat.lt_of_succ_lt_succ hi, add_ofNat_succ _ _⟩

/-- The addresses from one on in their order. -/
lemma getElem?_addressesFrom {address : UInt16} {count i : Nat} (h : i < count) :
    (addressesFrom address count)[i]? = some (address + UInt16.ofNat i) := by
  induction count generalizing address i with
  | zero => omega
  | succ count ih =>
    rw [addressesFrom]
    cases i with
    | zero => simp
    | succ i => rw [List.getElem?_cons_succ, ih (Nat.lt_of_succ_lt_succ h), add_ofNat_succ]

/-- Different distances lead to different addresses as long as they do not wrap. -/
lemma add_ofNat_inj {address : UInt16} {i j : Nat} (hi : i < addressCount) (hj : j < addressCount)
    (h : address + UInt16.ofNat i = address + UInt16.ofNat j) : i = j := by
  have key := congrArg UInt16.toNat ((UInt16.add_right_inj _).1 h)
  rwa [UInt16.toNat_ofNat_of_lt' hi, UInt16.toNat_ofNat_of_lt' hj] at key

/-- Addresses do not repeat as long as they do not wrap. -/
lemma nodup_addressesFrom {address : UInt16} {count : Nat} (h : count ≤ addressCount) :
    (addressesFrom address count).Nodup := by
  induction count generalizing address with
  | zero => exact List.nodup_nil
  | succ count ih =>
    refine List.nodup_cons.2 ⟨fun hmem => ?_, ih (Nat.le_of_succ_le h)⟩
    obtain ⟨i, hi, heq⟩ := mem_addressesFrom.1 hmem
    rw [← add_ofNat_succ] at heq
    have hzero : address + UInt16.ofNat 0 = address + UInt16.ofNat (i + 1) := by simpa using heq
    have := add_ofNat_inj (by decide) (by omega) hzero
    omega

/-- Addresses in two portions. -/
lemma addressesFrom_add (address : UInt16) (m n : Nat) :
    addressesFrom address (m + n) =
      addressesFrom address m ++ addressesFrom (address + UInt16.ofNat m) n := by
  induction m generalizing address with
  | zero => simp [addressesFrom]
  | succ m ih =>
    rw [Nat.succ_add, addressesFrom, addressesFrom, ih, List.cons_append, add_ofNat_succ]

lemma mem_allAddresses (address : UInt16) : address ∈ allAddresses :=
  List.mem_map.2 ⟨address.toNat, List.mem_range.2 address.toNat_lt, by simp⟩

lemma nodup_allAddresses : allAddresses.Nodup := by
  refine List.Nodup.map_on (fun i hi j hj h => ?_) List.nodup_range
  have key := congrArg UInt16.toNat h
  rwa [UInt16.toNat_ofNat_of_lt' (List.mem_range.1 hi),
    UInt16.toNat_ofNat_of_lt' (List.mem_range.1 hj)] at key

/-- The addresses with a property are as many as there are in any list of them. -/
lemma length_filter_allAddresses {p : UInt16 → Bool} {addresses : List UInt16}
    (hnodup : addresses.Nodup) (h : ∀ a, p a = true ↔ a ∈ addresses) :
    (allAddresses.filter p).length = addresses.length := by
  refine ((List.perm_ext_iff_of_nodup (nodup_allAddresses.filter _) hnodup).2 fun a => ?_).length_eq
  simp [mem_allAddresses, h]

/-- A range of addresses has the new value, and all other addresses the one they had. -/
lemma AddressMap.get_setRange {α : Type} (m : AddressMap α) (address a : UInt16) (x : α)
    (count : Nat) :
    (m.setRange address x count).get a =
      if a ∈ addressesFrom address count then x else m.get a := by
  induction count generalizing m address with
  | zero => rfl
  | succ count ih =>
    rw [setRange, ih, get_set, addressesFrom]
    by_cases hmem : a ∈ addressesFrom (address + 1) count
    · simp [hmem]
    · simp [hmem, eq_comm (a := address)]

/-! ### Bytes at addresses -/

/-- Reading bytes asks one address after the other. -/
lemma readBytes_eq_map (read : UInt16 → UInt8) (address : UInt16) (count : Nat) :
    readBytes read address count = (addressesFrom address count).map read := by
  induction count generalizing address with
  | zero => rfl
  | succ count ih => rw [readBytes, addressesFrom, ih, List.map_cons]

@[simp]
lemma length_readBytes (read : UInt16 → UInt8) (address : UInt16) (count : Nat) :
    (readBytes read address count).length = count := by
  rw [readBytes_eq_map, List.length_map, length_addressesFrom]

/-- Bytes in two portions. -/
lemma readBytes_add (read : UInt16 → UInt8) (address : UInt16) (m n : Nat) :
    readBytes read address (m + n) =
      readBytes read address m ++ readBytes read (address + UInt16.ofNat m) n := by
  rw [readBytes_eq_map, readBytes_eq_map, readBytes_eq_map, addressesFrom_add, List.map_append]

/-- Bytes are the same if they are at each address. -/
lemma readBytes_congr {read read' : UInt16 → UInt8} {address : UInt16} {count : Nat}
    (h : ∀ a ∈ addressesFrom address count, read a = read' a) :
    readBytes read address count = readBytes read' address count := by
  rw [readBytes_eq_map, readBytes_eq_map]
  exact List.map_congr_left h

/-- A byte that is read where bytes stand is one of them. -/
lemma read_eq_of_readBytes {read : UInt16 → UInt8} {address : UInt16} {bytes : List UInt8}
    (hread : readBytes read address bytes.length = bytes) {i : Nat} {b : UInt8}
    (hb : bytes[i]? = some b) : read (address + UInt16.ofNat i) = b := by
  have hi : i < bytes.length := (List.getElem?_eq_some_iff.1 hb).1
  rw [← hread, readBytes_eq_map, List.getElem?_map, getElem?_addressesFrom hi] at hb
  exact Option.some.inj hb

namespace Memory

/-- Bytes that are loaded change no other address. -/
lemma read_load_of_notMem {bytes : List UInt8} {address a : UInt16} {m : Memory}
    (h : a ∉ addressesFrom address bytes.length) : (m.load address bytes).read a = m.read a := by
  induction bytes generalizing address m with
  | nil => rfl
  | cons b bytes ih =>
    rw [List.length_cons, addressesFrom, List.mem_cons, not_or] at h
    rw [load, ih h.2, read_write, if_neg (Ne.symm h.1)]

/-- **Bytes that were loaded are read back**, if they do not overwrite each other. -/
theorem readBytes_load {bytes : List UInt8} {address : UInt16} {m : Memory}
    (h : (addressesFrom address bytes.length).Nodup) :
    readBytes (m.load address bytes).read address bytes.length = bytes := by
  induction bytes generalizing address m with
  | nil => rfl
  | cons b bytes ih =>
    rw [List.length_cons, addressesFrom, List.nodup_cons] at h
    rw [List.length_cons, readBytes, load, ih h.2, read_load_of_notMem h.1, read_write, if_pos rfl]

end Memory

/-! ### Cells -/

/-- Consecutive bytes from an address on, each with its address. -/
def cellsFrom (address : UInt16) (bytes : List UInt8) : List (UInt16 × UInt8) :=
  (addressesFrom address bytes.length).zip bytes

@[simp]
lemma map_fst_cellsFrom (address : UInt16) (bytes : List UInt8) :
    (cellsFrom address bytes).map Prod.fst = addressesFrom address bytes.length := by
  rw [cellsFrom, List.map_fst_zip (Nat.le_of_eq (length_addressesFrom ..))]

/-- Cells in two portions. -/
lemma cellsFrom_append (address : UInt16) (first last : List UInt8) :
    cellsFrom address (first ++ last) =
      cellsFrom address first ++ cellsFrom (address + UInt16.ofNat first.length) last := by
  rw [cellsFrom, List.length_append, addressesFrom_add,
    List.zip_append (length_addressesFrom address first.length)]
  rfl

namespace Memory

/-- Memory with bytes at some addresses, written one after the other. -/
def writeAll (m : Memory) (cells : List (UInt16 × UInt8)) : Memory :=
  cells.foldl (fun m cell => m.write cell.1 cell.2) m

/-- Cells in two portions are written one portion after the other. -/
lemma writeAll_append (m : Memory) (cells more : List (UInt16 × UInt8)) :
    m.writeAll (cells ++ more) = (m.writeAll cells).writeAll more :=
  List.foldl_append

/-- **Bytes are loaded by writing each to its address.** -/
theorem load_eq_writeAll (m : Memory) (address : UInt16) (bytes : List UInt8) :
    m.load address bytes = m.writeAll (cellsFrom address bytes) := by
  induction bytes generalizing m address with
  | nil => rfl
  | cons b bytes ih =>
    rw [load, ih]
    rfl

end Memory

/-! ### Addresses of lines -/

namespace OriginMap

/-- The map in which a line wrote the bytes at some addresses. -/
def assignAll (map : OriginMap) (line : Nat) : List UInt16 → OriginMap
  | [] => map
  | address :: more => (map.assign address line).assignAll line more

/-- A line is found at the addresses it was assigned, and all others as before. -/
lemma lineAt?_assignAll {addresses : List UInt16} {map : OriginMap} {line : Nat} (a : UInt16) :
    (map.assignAll line addresses).lineAt? a =
      if a ∈ addresses then some line else map.lineAt? a := by
  induction addresses generalizing map with
  | nil => simp [assignAll]
  | cons address more ih =>
    rw [assignAll, ih, lineAt?_assign]
    by_cases ha : a ∈ more
    · simp [ha]
    · simp [ha, eq_comm (a := address)]

/-- The addresses of a line are as many as there are in any list of them. -/
lemma length_addressesOf {map : OriginMap} {line : Nat} {addresses : List UInt16}
    (hnodup : addresses.Nodup) (h : ∀ a, map.lineAt? a = some line ↔ a ∈ addresses) :
    (map.addressesOf line).length = addresses.length :=
  length_filter_allAddresses hnodup fun a => by simp [h]

/-- The addresses that were written are as many as there are in any list of them. -/
lemma size_eq_length {map : OriginMap} {addresses : List UInt16} (hnodup : addresses.Nodup)
    (h : ∀ a, map.isOwned a = true ↔ a ∈ addresses) : map.size = addresses.length :=
  length_filter_allAddresses hnodup h

end OriginMap

/-- **Bytes are claimed if all of their addresses are free and different.**  They are then loaded,
and the line is assigned their addresses. -/
theorem Image.claim_eq_ok_iff {line : Nat} {bytes : List UInt8} {memory memory' : Memory}
    {origins origins' : OriginMap} {address : UInt16} :
    claim line memory origins address bytes = .ok (memory', origins') ↔
      (addressesFrom address bytes.length).Nodup ∧
      (∀ a ∈ addressesFrom address bytes.length, origins.lineAt? a = none) ∧
      memory' = memory.load address bytes ∧
      origins' = origins.assignAll line (addressesFrom address bytes.length) := by
  induction bytes generalizing memory origins address with
  | nil => simp [claim, addressesFrom, Memory.load, OriginMap.assignAll, eq_comm]
  | cons b bytes ih =>
    simp only [claim, OriginMap.claim, List.length_cons, addressesFrom, List.nodup_cons,
      List.forall_mem_cons, Memory.load, OriginMap.assignAll]
    cases hfree : origins.lineAt? address with
    | some previous => simp
    | none =>
      simp only [ih, true_and, OriginMap.lineAt?_assign]
      constructor
      · rintro ⟨hnodup, hnone, hmemory, horigins⟩
        refine ⟨⟨fun hmem => ?_, hnodup⟩, fun a ha => ?_, hmemory, horigins⟩
        · simpa using hnone address hmem
        · have := hnone a ha
          split at this
          · simp at this
          · exact this
      · rintro ⟨⟨hnew, hnodup⟩, hnone, hmemory, horigins⟩
        refine ⟨hnodup, fun a ha => ?_, hmemory, horigins⟩
        rw [if_neg]
        · exact hnone a ha
        · rintro rfl
          exact hnew ha

end Z80
