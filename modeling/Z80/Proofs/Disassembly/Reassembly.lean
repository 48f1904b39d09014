import Z80.Proofs.Disassembly.Source

/-!
# Disassemblies assemble to the bytes they were made from

The source text of a disassembly is assembled without a failure, and what is assembled are the bytes
that were disassembled, each at its address.  This holds for any bytes, wherever control is said to
enter them, as long as no instruction that was traced has a second encoding.

## Main results

* `Z80.Disassembly.assemble_source` — a disassembly assembles to the bytes it was made from.

## Design

Three facts are put together.  The disassembly shows the buffer (`Z80.Disassembly.shows_ofBuffer`),
its text passes through the assembler (`Z80.Disassembly.Shows.passage`), and a text that passes
assembles to its cells and names (`Z80.Passage.assemble_eq_ok`).
-/

namespace Z80

namespace Disassembly

/-- **A disassembly assembles to the bytes it was made from.**  For every buffer that leaves an
address free, wherever it is and wherever control enters it, if labels are used and no instruction
that was traced has a second encoding: the source text is assembled; each byte is at its address; no
other address is written; the symbols are the labels of the disassembly, each defined once; and the
target of every instruction that has one is written as a label which has the value of that target.

**Proof sketch.** The lines cover the buffer one behind the other, so the bytes that they write have
different addresses.  The names are the labels of the trace, so a label has the value of its address
wherever it is defined, and every line is encoded as the bytes that it shows. -/
theorem assemble_source {options : Options} {bytes : List UInt8} {assembling : Assembly.Options}
    (hlabels : options.useLabels = true) (hsize : bytes.length < addressCount)
    (hduplicate : ∀ line ∈ (disassemble options bytes).instructions,
      ∀ i ∈ (Buffer.ofList options.base bytes).decode? line.address,
        i.descriptor.isDuplicate = false) :
    ∃ assembly, assemble assembling (disassemble options bytes).source = .ok assembly ∧
      (∀ (i : Nat) (b : UInt8), bytes[i]? = some b →
        assembly.memory.read (options.base + UInt16.ofNat i) = b) ∧
      (∀ a, assembly.origins.isOwned a ↔
        ∃ i < bytes.length, a = options.base + UInt16.ofNat i) ∧
      assembly.symbols.symbols.map (fun symbol => (symbol.name, symbol.value)) =
        (disassemble options bytes).names ∧
      ((disassemble options bytes).names.map Prod.fst).Nodup ∧
      ∀ line ∈ (disassemble options bytes).instructions, ∃ i label,
        (Buffer.ofList options.base bytes).decode? line.address = some i ∧
        line.text = i.text label ∧
        ∀ target, i.target? = some target → ∃ name, label target = some name ∧
          assembly.symbols.value? name = some target := by
  have hle := Nat.le_of_lt hsize
  have hbuffer : (Buffer.ofList options.base bytes).size < addressCount := by
    rwa [Buffer.size_ofList hle]
  obtain ⟨labels, hshows⟩ := shows_ofBuffer hlabels hbuffer
  have hreassembles : ∀ line ∈ (disassemble options bytes).lines,
      line.Reassembles (Buffer.ofList options.base bytes) := by
    intro line hline hdata i hi
    refine hduplicate line (List.mem_filter.2 ⟨hline, ?_⟩) i hi
    rw [hdata]
    rfl
  have hpassage := hshows.passage hreassembles 0
  have hbase : (Buffer.ofList options.base bytes).base = options.base := rfl
  rw [hbase, Buffer.size_ofList hle, Buffer.readBytes_ofList hle] at hpassage
  have hnodup : ((cellsFrom options.base bytes).map Prod.fst).Nodup := by
    rw [map_fst_cellsFrom]
    exact nodup_addressesFrom hle
  have hlower : ∀ (address : UInt16) (name : String), labels.find? address = some name →
      Text.lower name = name ∧ (name, address) ∈ (disassemble options bytes).names := by
    intro address name hname
    exact ⟨lower_of_isLabelName (hshows.numbered.isLabelling address name hname),
      (hshows.mem_names_iff (name, address)).2 hname⟩
  rw [← hshows.lines_source] at hpassage
  obtain ⟨assembly, hassembly, hmemory, howned, hsymbols⟩ :=
    @Passage.assemble_eq_ok _ _ _ _ assembling _ hpassage hshows.nodup_names hnodup hlower
  refine ⟨assembly, hassembly, fun i b hb => ?_, fun a => ?_, hsymbols.values, hshows.nodup_names,
    fun line hline => ?_⟩
  · rw [hmemory, ← Memory.load_eq_writeAll]
    refine read_eq_of_readBytes (Memory.readBytes_load ?_) hb
    rwa [map_fst_cellsFrom] at hnodup
  · rw [howned, map_fst_cellsFrom, mem_addressesFrom]
  · obtain ⟨hmem, hdata⟩ := List.mem_filter.1 hline
    have hstands := (hshows.covers.exists_offset hmem).1
    obtain ⟨i, label, hholds⟩ := hstands.exists_holds hshows.numbered (by simpa using hdata)
    refine ⟨i, label, hholds.decode_eq, hholds.text_eq, fun target hi => ?_⟩
    obtain ⟨name, hname⟩ := Option.isSome_iff_exists.1 (hholds.isSome_target target hi)
    obtain ⟨hcase, hlisted⟩ := hlower target name (hholds.find?_eq target name hname)
    exact ⟨name, hname, hsymbols.value?_eq hcase hshows.nodup_names hlisted⟩

/-- A loop, a jump into the middle of itself and a byte of data assemble to what they were. -/
theorem assemble_source_loop :
    ∃ assembly,
      assemble {} (disassemble { base := 0x100 } [0x10, 0xFE, 0xC3, 0x04, 0x01, 0x41]).source =
        .ok assembly ∧
      (∀ a, assembly.origins.isOwned a ↔ ∃ i < 6, a = 0x100 + UInt16.ofNat i) ∧
      assembly.memory.read (0x100 + UInt16.ofNat 3) = 0x04 := by
  obtain ⟨assembly, hassembly, hread, howned, -⟩ :=
    @assemble_source { base := 0x100 } [0x10, 0xFE, 0xC3, 0x04, 0x01, 0x41] {} rfl (by decide)
      (by decide +kernel)
  exact ⟨assembly, hassembly, howned, hread 3 0x04 rfl⟩

end Disassembly

end Z80
