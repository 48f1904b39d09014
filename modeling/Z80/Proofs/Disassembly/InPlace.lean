import Z80.Proofs.Disassembly.Source

/-!
# Instructions reassembled in place

An instruction that is found in a buffer is written without labels and assembled at the address
where it was found.  This gives the bytes that it was found as, wherever in the address space that
is, across its end too.  The exception are relative jumps beyond address `FFFFh`: they are written
as an offset to `$`, and the sum is no word.

## Main definitions

* `Z80.Instruction.inPlace` — an instruction without labels, behind the origin at its address.

## Main results

* `Z80.Buffer.assemble_inPlace` — what such a text is assembled to, and when it is refused.
-/

namespace Z80

namespace Instruction

variable {i : Instruction} {read : UInt16 → UInt8} {origin : String}

/-- An instruction without labels, behind a line with its origin. -/
def inPlace (i : Instruction) (origin : String) : String :=
  "org " ++ origin ++ "\n" ++ i.text fun _ => none

/-- The line with the origin leads to the address of the instruction. -/
lemma passage_origin_inPlace (horigin : Expr.IsNumeral origin.toList i.address.toNat) :
    Passage (fun _ => none) ["org " ++ origin] 0 i.address [] [] := by
  have horg := @Disassembly.passage_origin (fun _ => none) 0 _ "" _ 0 rfl horigin
  rwa [String.empty_append] at horg

namespace StandsIn

variable (h : i.StandsIn read)

include h

/-- The two lines of an instruction behind its origin. -/
lemma lines_inPlace (horigin : Expr.IsNumeral origin.toList i.address.toNat) :
    Text.lines (i.inPlace origin) = ["org " ++ origin] ++ [i.text fun _ => none] := by
  have hline : ∀ s ∈ ["org " ++ origin], Text.IsOneLine s.toList := by
    intro s hs
    have horg : Text.IsOneLine "org ".toList := by
      decide
    rw [List.mem_singleton.1 hs, String.toList_append]
    exact horg.append (Text.isOneLine_of_isBlank fun c hc =>
      .inl ((isPiece_numeral horigin).isBlank_eq_false c hc))
  have hne : (i.text fun _ => none).toList ≠ [] := by
    have hname := (Mnemonic.name_read i.descriptor.template.mnemonic).1
    rw [toList_text, Source.statementChars]
    split
    · exact hname
    · simp [hname]
  have hlines := Text.lines_join_append hline (h.isOneLine_text isLabelling_none) hne
  simpa [inPlace] using hlines

/-- The line of the instruction is read as an instruction. -/
lemma readsAs_inPlace : Source.ReadsAs (i.text fun _ => none) none
    (.instruction i.descriptor.template.mnemonic.name (i.operandTexts fun _ => none)) := by
  have hreads := h.readsAs isLabelling_none (.inl rfl)
  rwa [Disassembly.commentText, String.append_empty, String.empty_append] at hreads

/-- The bytes of an instruction have different addresses. -/
lemma nodup_addresses : (addressesFrom i.address i.bytes.length).Nodup := by
  have hsize : i.bytes.length ≤ 4 := by
    rw [h.length_bytes]
    exact Descriptor.size_le_of_mem_all (Descriptor.of_decode h.decode_eq).1
  exact nodup_addressesFrom (hsize.trans (by decide))

/-- **An instruction is assembled to its bytes**, if no relative target in it lies past the last
address. -/
theorem exists_assemble_inPlace {options : Assembly.Options}
    (horigin : Expr.IsNumeral origin.toList i.address.toNat)
    (hduplicate : i.descriptor.isDuplicate = false)
    (hend : ∀ target, .relative target ∈ i.values → relativeValue i.address target ≤ 65535) :
    ∃ assembly, assemble options (i.inPlace origin) = .ok assembly ∧
      assembly.memory = Memory.blank.load i.address i.bytes ∧
      ∀ a, assembly.origins.isOwned a ↔ ∃ k < i.bytes.length, a = i.address + UInt16.ofNat k := by
  have hwrites := h.writes hduplicate isLabelling_none fun target hmem => by
    refine .inr (Bool.eq_false_iff.2 fun hpasses => ?_)
    have hpast := (relativePassesEnd_iff _ _).1 hpasses
    have hle := hend target hmem
    omega
  have hpassage := (passage_origin_inPlace horigin).append
    (passage_line h.readsAs_inPlace (Layout.defines_none _) hwrites.leads)
  rw [← h.lines_inPlace horigin, List.nil_append, List.nil_append] at hpassage
  have hnodup : ((cellsFrom i.address i.bytes).map Prod.fst).Nodup := by
    rw [map_fst_cellsFrom]
    exact h.nodup_addresses
  obtain ⟨assembly, hassembly, hmemory, howned, -⟩ :=
    hpassage.assemble_eq_ok List.nodup_nil hnodup (by simp)
  refine ⟨assembly, hassembly, ?_, fun a => ?_⟩
  · rw [hmemory, ← Memory.load_eq_writeAll]
  · rw [howned, map_fst_cellsFrom, mem_addressesFrom]

/-- **An instruction is refused** if a relative target in it lies past the last address. -/
theorem assemble_inPlace_eq_error {options : Assembly.Options}
    (horigin : Expr.IsNumeral origin.toList i.address.toNat)
    (hduplicate : i.descriptor.isDuplicate = false) {target : UInt16}
    (hmem : .relative target ∈ i.values) (hpast : 65535 < relativeValue i.address target) :
    assemble options (i.inPlace origin) =
      .error ⟨2, .expression (.outOfRange (.ofInt (relativeValue i.address target)) .word)⟩ :=
  (passage_origin_inPlace horigin).assemble_eq_error (h.lines_inPlace horigin) h.readsAs_inPlace
    (h.fails hduplicate isLabelling_none hmem rfl ((relativePassesEnd_iff _ _).2 hpast))
    List.nodup_nil List.nodup_nil (by simp)

end StandsIn

end Instruction

namespace Buffer

/-- **An instruction reassembles in place, unless it jumps beyond the last address.**  For every
instruction that is found in a buffer and has no second encoding, and every numeral of its address:
without labels, behind a line with its origin, it is assembled to its bytes, one behind the other
from its address on, modulo 2 to the 16th, and nothing else is written.  The exception is a relative
target for which the address and the offset do not add up to a word; then its line is refused.

**Proof sketch.** The origin leads to the address, and the statement of the instruction denotes its
descriptor, which writes the bytes.  An offset is added to the address as an integer: in front of
address 0 the sum is negative and stands for the word that is meant, but behind the last address it
is out of range. -/
theorem assemble_inPlace {buffer : Buffer} {address : UInt16} {i : Instruction} {origin : String}
    {options : Assembly.Options} (hdecode : buffer.decode? address = some i)
    (hduplicate : i.descriptor.isDuplicate = false)
    (horigin : Expr.IsNumeral origin.toList address.toNat) :
    ((∀ target, .relative target ∈ i.values → relativeValue address target ≤ 65535) →
      ∃ assembly, assemble options (i.inPlace origin) = .ok assembly ∧
        assembly.memory = Memory.blank.load address i.bytes ∧
        (∀ (k : Nat) (b : UInt8), i.bytes[k]? = some b →
          assembly.memory.read (address + UInt16.ofNat k) = b) ∧
        ∀ a, assembly.origins.isOwned a ↔
          ∃ k < i.bytes.length, a = address + UInt16.ofNat k) ∧
    ∀ target, .relative target ∈ i.values → 65535 < relativeValue address target →
      assemble options (i.inPlace origin) =
        .error ⟨2, .expression (.outOfRange (.ofInt (relativeValue address target)) .word)⟩ := by
  have hstands := standsIn_of_decode? hdecode
  obtain rfl := address_of_decode? hdecode
  refine ⟨fun hend => ?_, fun target hmem hpast => ?_⟩
  · obtain ⟨assembly, hassembly, hmemory, howned⟩ :=
      hstands.exists_assemble_inPlace horigin hduplicate hend
    refine ⟨assembly, hassembly, hmemory, fun k b hb => ?_, howned⟩
    rw [hmemory]
    exact read_eq_of_readBytes (Memory.readBytes_load hstands.nodup_addresses) hb
  · exact hstands.assemble_inPlace_eq_error horigin hduplicate hmem hpast

/-- An instruction that starts at address `FFFEh` is put there again, and ends at address 1. -/
theorem assemble_inPlace_across_end :
    ∃ i assembly, (ofList 0xFFFE [0xDD, 0xCB, 0x80, 0xC6]).decode? 0xFFFE = some i ∧
      i.inPlace "65534" = "org 65534\nset 0,(ix-80h)" ∧
      assemble {} (i.inPlace "65534") = .ok assembly ∧
      assembly.memory = Memory.blank.load 0xFFFE [0xDD, 0xCB, 0x80, 0xC6] := by
  have hsome : ((ofList 0xFFFE [0xDD, 0xCB, 0x80, 0xC6]).decode? 0xFFFE).isSome := by
    decide +kernel
  have key : ∀ i ∈ (ofList 0xFFFE [0xDD, 0xCB, 0x80, 0xC6]).decode? 0xFFFE,
      i.descriptor.isDuplicate = false ∧ i.values = [.text "0", .indexed .ix (-128)] ∧
        i.bytes = [0xDD, 0xCB, 0x80, 0xC6] ∧
        i.inPlace "65534" = "org 65534\nset 0,(ix-80h)" := by
    decide +kernel
  obtain ⟨i, hdecode⟩ := Option.isSome_iff_exists.1 hsome
  obtain ⟨hduplicate, hvalues, hbytes, htext⟩ := key i hdecode
  have horigin : Expr.IsNumeral "65534".toList 65534 :=
    ⟨by decide, List.all_eq_true.1 (by decide), by decide +kernel⟩
  have hin := @assemble_inPlace _ _ _ _ {} hdecode hduplicate horigin
  obtain ⟨assembly, hassembly, hmemory, -⟩ := hin.1 (by simp [hvalues])
  exact ⟨i, assembly, hdecode, htext, hassembly, by rw [hmemory, hbytes]⟩

/-- **A jump from the end of the address space to its start is refused**, although it was found as
an instruction that has no second encoding. -/
theorem assemble_inPlace_past_end :
    ∃ i, (ofList 0xFFFE [0x18, 0x03]).decode? 0xFFFE = some i ∧
      i.descriptor.isDuplicate = false ∧ i.inPlace "65534" = "org 65534\njr $+05h" ∧
      assemble {} (i.inPlace "65534") =
        .error ⟨2, .expression (.outOfRange 65539 .word)⟩ := by
  have hsome : ((ofList 0xFFFE [0x18, 0x03]).decode? 0xFFFE).isSome := by
    decide +kernel
  have key : ∀ i ∈ (ofList 0xFFFE [0x18, 0x03]).decode? 0xFFFE, i.address = 0xFFFE ∧
      i.descriptor.isDuplicate = false ∧ i.values = [.relative 3] ∧
        i.inPlace "65534" = "org 65534\njr $+05h" := by
    decide +kernel
  obtain ⟨i, hdecode⟩ := Option.isSome_iff_exists.1 hsome
  obtain ⟨haddress, hduplicate, hvalues, htext⟩ := key i hdecode
  have horigin : Expr.IsNumeral "65534".toList i.address.toNat := by
    rw [haddress]
    exact ⟨by decide, List.all_eq_true.1 (by decide), by decide +kernel⟩
  have hvalue : relativeValue i.address 3 = 65539 := by
    rw [haddress]
    decide +kernel
  have herror := @Instruction.StandsIn.assemble_inPlace_eq_error _ _ _
    (standsIn_of_decode? hdecode) {} horigin hduplicate 3 (by simp [hvalues]) (by omega)
  rw [hvalue] at herror
  exact ⟨i, hdecode, hduplicate, htext, herror⟩

end Buffer

end Z80
