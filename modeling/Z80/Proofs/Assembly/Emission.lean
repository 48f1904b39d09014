import Z80.Assembly.Assemble
import Z80.Proofs.Addresses
import Z80.Proofs.Assembly.FirstPass
import Z80.Proofs.Assembly.SecondPass
import Z80.Proofs.Catalog.DecodeBack
import Z80.Proofs.Disassembly.Buffer

/-!
# What was assembled decodes back

Bytes are written once, so the bytes of a line are still there when all lines are written, and the
origins tell which addresses are theirs.  What decodes from them is the instruction of the line.

## Main definitions

* `Z80.Image.Keeps` — an image in which everything that was written is still there.

## Main results

* `Z80.Image.keeps_writeLines`, `Z80.Image.owner_writeLines` — lines keep what was written, and own
  what they write.
* `Z80.Image.bytes_writeLine` — the bytes of a line are at its location.
* `Z80.Assembly.decode_instruction` — every instruction decodes back to its source.
-/

namespace Z80

open Source (Statement)

namespace Image

variable {image after : Image} {symbols : SymbolTable} {line : PreparedLine}
  {lines : List PreparedLine}

/-- What was written in `before` is still there in `after`: each address with its byte and line,
and each entry of the listing. -/
structure Keeps (after before : Image) : Prop where
  lineAt? : ∀ {a : UInt16} {n : Nat}, before.origins.lineAt? a = some n →
    after.origins.lineAt? a = some n
  read : ∀ {a : UInt16} {n : Nat}, before.origins.lineAt? a = some n →
    after.memory.read a = before.memory.read a
  entry : ∀ {k : Nat} {entry : Listing.Entry}, before.entries[k]? = some entry →
    after.entries[k]? = some entry

namespace Keeps

lemma refl (image : Image) : image.Keeps image :=
  ⟨id, fun _ => rfl, id⟩

lemma trans {last middle first : Image} (h : last.Keeps middle) (h' : middle.Keeps first) :
    last.Keeps first where
  lineAt? ha := h.lineAt? (h'.lineAt? ha)
  read ha := (h.read (h'.lineAt? ha)).trans (h'.read ha)
  entry hk := h.entry (h'.entry hk)

end Keeps

/-! ### One line -/

/-- Bytes that are emitted: their addresses were free and are now those of the line. -/
lemma emit_spec {n : Nat} {bytes : List UInt8} (h : image.emit n bytes = .ok after) :
    (addressesFrom image.segments.location bytes.length).Nodup ∧
      readBytes after.memory.read image.segments.location bytes.length = bytes ∧
      (∀ a, after.origins.lineAt? a =
        if a ∈ addressesFrom image.segments.location bytes.length then some n
        else image.origins.lineAt? a) ∧
      (∀ {a m}, image.origins.lineAt? a = some m →
        after.memory.read a = image.memory.read a ∧
          a ∉ addressesFrom image.segments.location bytes.length) ∧
      after.entries = image.entries := by
  obtain ⟨memory, origins, hclaim, rfl⟩ := emit_eq_ok_iff.1 h
  obtain ⟨hnodup, hfree, rfl, rfl⟩ := claim_eq_ok_iff.1 hclaim
  refine ⟨hnodup, Memory.readBytes_load hnodup, fun a => OriginMap.lineAt?_assignAll a,
    fun {a m} ha => ?_, rfl⟩
  have hnotMem : a ∉ addressesFrom image.segments.location bytes.length := by
    intro hmem
    simp [hfree a hmem] at ha
  exact ⟨Memory.read_load_of_notMem hnotMem, hnotMem⟩

/-- **A line keeps what was written.** -/
theorem keeps_writeLine (h : image.writeLine symbols line = .ok after) : after.Keeps image := by
  have hentry {entries : Array Listing.Entry} (new : Listing.Entry) {k : Nat}
      {entry : Listing.Entry} (hk : entries[k]? = some entry) :
      (entries.push new)[k]? = some entry := by
    rw [Array.getElem?_push, if_neg]
    · exact hk
    · rintro rfl
      simp at hk
  rcases writeLine_eq_ok_iff.1 h with ⟨address, moved, -, hmoved, rfl⟩ |
    ⟨emission, written, -, hwritten, rfl⟩
  · rw [direct_eq_ok hmoved]
    exact ⟨id, fun _ => rfl, hentry _⟩
  · obtain ⟨-, -, howner, hold, hentries⟩ := emit_spec hwritten
    refine ⟨fun {a n} ha => ?_, fun ha => (hold ha).1, fun hk => ?_⟩
    · change written.origins.lineAt? a = some n
      rw [howner, if_neg (hold ha).2, ha]
    · change (written.entries.push _)[_]? = _
      rw [hentries]
      exact hentry _ hk

/-- An address belongs to a line behind which it was not written before. -/
lemma owner_writeLine (h : image.writeLine symbols line = .ok after) {a : UInt16} {n : Nat}
    (ha : after.origins.lineAt? a = some n) :
    image.origins.lineAt? a = some n ∨ line.number = n := by
  rcases writeLine_eq_ok_iff.1 h with ⟨address, moved, -, hmoved, rfl⟩ |
    ⟨emission, written, -, hwritten, rfl⟩
  · rw [direct_eq_ok hmoved] at ha
    exact .inl ha
  · obtain ⟨-, -, howner, -⟩ := emit_spec hwritten
    change written.origins.lineAt? a = some n at ha
    rw [howner] at ha
    split at ha
    · exact .inr (Option.some.inj ha)
    · exact .inl ha

/-- Each line has one entry in the listing. -/
lemma size_entries_writeLine (h : image.writeLine symbols line = .ok after) :
    after.entries.size = image.entries.size + 1 := by
  rcases writeLine_eq_ok_iff.1 h with ⟨address, moved, -, hmoved, rfl⟩ |
    ⟨emission, written, -, hwritten, rfl⟩
  · rw [direct_eq_ok hmoved]
    exact Array.size_push _
  · obtain ⟨-, -, -, -, hentries⟩ := emit_spec hwritten
    rw [← hentries]
    exact Array.size_push _

/-- **The bytes of a line are at its location**, which the listing shows. -/
theorem bytes_writeLine (h : image.writeLine symbols line = .ok after) {emission : Emission}
    (hemission : line.statement.emission? (symbols.scope image.segments.location) =
      .ok (some emission)) :
    (addressesFrom image.segments.location emission.bytes.length).Nodup ∧
      readBytes after.memory.read image.segments.location emission.bytes.length =
        emission.bytes ∧
      (∀ a, after.origins.lineAt? a =
        if a ∈ addressesFrom image.segments.location emission.bytes.length then some line.number
        else image.origins.lineAt? a) ∧
      after.entries[image.entries.size]? = some ⟨line.number, some image.segments.location,
        if emission.isListed then emission.bytes else [], line.source, emission.annotation⟩ := by
  rcases writeLine_eq_ok_iff.1 h with ⟨address, moved, hnone, -, -⟩ |
    ⟨emission', written, hsome, hwritten, rfl⟩
  · rw [hemission] at hnone
    simp at hnone
  · obtain rfl := Option.some.inj (Except.ok.inj (hemission.symm.trans hsome))
    obtain ⟨hnodup, hread, howner, -, hentries⟩ := emit_spec hwritten
    refine ⟨hnodup, hread, howner, ?_⟩
    rw [← hentries]
    exact Array.getElem?_push_size

/-- An instruction that is written denotes a descriptor and has an encoding. -/
lemma emission_of_writeLine (h : image.writeLine symbols line = .ok after) {word : String}
    {texts : List String} (hstatement : line.statement = .instruction word texts) :
    ∃ emission resolved encoding,
      line.statement.emission? (symbols.scope image.segments.location) = .ok (some emission) ∧
      resolve (symbols.scope image.segments.location) word (operandsOf texts) = .ok resolved ∧
      resolved.encode (symbols.scope image.segments.location) (operandsOf texts) =
        .ok encoding ∧
      emission.bytes = encoding.bytes := by
  have key {found : Option Emission} (hfound :
      line.statement.emission? (symbols.scope image.segments.location) = .ok found) :
      ∃ emission, found = some emission ∧
        instructionEmission (symbols.scope image.segments.location) word (operandsOf texts) =
          .ok emission := by
    rw [hstatement] at hfound
    obtain ⟨emission, hemission, rfl⟩ := map_eq_ok_iff.1 hfound
    exact ⟨emission, rfl, hemission⟩
  rcases writeLine_eq_ok_iff.1 h with ⟨address, moved, hnone, -, -⟩ |
    ⟨emission, written, hsome, -, -⟩
  · obtain ⟨emission, heq, -⟩ := key hnone
    simp at heq
  · obtain ⟨_, heq, hemission⟩ := key hsome
    obtain rfl := Option.some.inj heq
    obtain ⟨resolved, encoding, hresolved, hencoding, hbytes, -⟩ :=
      instructionEmission_eq_ok hemission
    exact ⟨emission, resolved, encoding, hsome, hresolved, hencoding, hbytes⟩

/-! ### All lines -/

/-- **Lines keep what was written.** -/
theorem keeps_writeLines (h : image.writeLines symbols lines = .ok after) :
    after.Keeps image := by
  induction lines generalizing image with
  | nil =>
    obtain rfl := Except.ok.inj h
    exact .refl _
  | cons line lines ih =>
    obtain ⟨next, hnext, hrest⟩ := writeLines_cons_eq_ok_iff.1 h
    exact (ih hrest).trans (keeps_writeLine hnext)

/-- **An address belongs to one of the lines** if it was not written before. -/
theorem owner_writeLines (h : image.writeLines symbols lines = .ok after) {a : UInt16} {n : Nat}
    (ha : after.origins.lineAt? a = some n) :
    image.origins.lineAt? a = some n ∨ n ∈ lines.map PreparedLine.number := by
  induction lines generalizing image with
  | nil =>
    obtain rfl := Except.ok.inj h
    exact .inl ha
  | cons line lines ih =>
    obtain ⟨next, hnext, hrest⟩ := writeLines_cons_eq_ok_iff.1 h
    rw [List.map_cons, List.mem_cons]
    rcases ih hrest with hbefore | hlater
    · rcases owner_writeLine hnext hbefore with hold | rfl
      · exact .inl hold
      · exact .inr (.inl rfl)
    · exact .inr (.inr hlater)

/-- There are as many entries in the listing as lines. -/
lemma size_entries_writeLines (h : image.writeLines symbols lines = .ok after) :
    after.entries.size = image.entries.size + lines.length := by
  induction lines generalizing image with
  | nil =>
    obtain rfl := Except.ok.inj h
    rfl
  | cons line lines ih =>
    obtain ⟨next, hnext, hrest⟩ := writeLines_cons_eq_ok_iff.1 h
    rw [ih hrest, size_entries_writeLine hnext, List.length_cons]
    omega

end Image

/-- The lines of a run have different numbers. -/
lemma Layout.Run.nodup_numbers {before after : Layout} {number : Nat} {texts : List String}
    {lines : List PreparedLine} (h : Run before number texts lines after) :
    (lines.map PreparedLine.number).Nodup ∧
      ∀ n ∈ lines.map PreparedLine.number, number ≤ n := by
  induction h with
  | nil => simp
  | stop hline => simp [hline.number_eq]
  | cons hline _ _ ih =>
    obtain ⟨hnodup, hlow⟩ := ih
    refine ⟨List.nodup_cons.2 ⟨fun hmem => ?_, hnodup⟩, fun n hmem => ?_⟩
    · have := hlow _ hmem
      rw [hline.number_eq] at this
      omega
    · rcases List.mem_cons.1 hmem with rfl | hmem
      · exact Nat.le_of_eq hline.number_eq.symm
      · exact Nat.le_of_succ_le (hlow n hmem)

/-! ### Assemblies -/

/-- An assembly comes from a layout and the image of its lines. -/
lemma assemble_eq_ok_iff {options : Assembly.Options} {source : String} {assembly : Assembly} :
    assemble options source = .ok assembly ↔
      ∃ layout image, Layout.ofSource options.segment source = .ok layout ∧
        Image.ofLayout options.segment layout = .ok image ∧
        assembly = ⟨image.memory, image.origins, layout.symbols,
          ⟨options.listingWidth, image.entries.toList⟩, layout.start?⟩ := by
  unfold assemble
  constructor
  · intro h
    split at h
    · simp at h
    · next layout hlayout =>
      split at h
      · simp at h
      · next image himage => exact ⟨layout, image, hlayout, himage, (Except.ok.inj h).symm⟩
  · rintro ⟨layout, image, hlayout, himage, rfl⟩
    simp only [hlayout, himage]

namespace Assembly

variable {options : Assembly.Options} {source : String} {assembly : Assembly} {layout : Layout}

/-- **What was assembled decodes back to its source.**  The instruction of a line is at the address
that the listing shows: its descriptor is what the bytes in memory decode to, its size is the
number of addresses that the line owns, and the operands that are extracted from memory have the
values of the operands in the text.

**Proof sketch.** Memory is followed through the second pass in three portions: up to the line,
the line itself, and the lines behind it.  The line writes the bytes of its instruction, the lines
behind it keep them, and no other line has its number. -/
theorem decode_instruction (h : assemble options source = .ok assembly)
    (hlayout : Layout.ofSource options.segment source = .ok layout) {k : Nat}
    {line : PreparedLine} (hline : layout.lines[k]? = some line) {word : String}
    {texts : List String} (hstatement : line.statement = .instruction word texts) :
    ∃ (entry : Listing.Entry) (address : UInt16) (resolved : Resolved) (i : Instruction),
      assembly.listing.entries[k]? = some entry ∧ entry.line = line.number ∧
      entry.address = some address ∧
      resolve (assembly.symbols.scope address) word (operandsOf texts) = .ok resolved ∧
      Descriptor.decode assembly.memory.read address = .ok resolved.descriptor ∧
      (assembly.origins.addressesOf line.number).length = resolved.descriptor.size ∧
      assembly.memory.buffer.decode? address = some i ∧ i.descriptor = resolved.descriptor ∧
      List.Forall₂
        (fun entry value => entry.1.Gives (assembly.symbols.scope address) entry.2 value)
        (resolved.encodedOperands (operandsOf texts)) (i.values.filter Value.isEncoded) := by
  obtain ⟨_, last, hlayout', himage, rfl⟩ := assemble_eq_ok_iff.1 h
  obtain rfl := Except.ok.inj (hlayout.symm.trans hlayout')
  obtain ⟨lines, hrun⟩ := Layout.readLines_eq_ok_iff.1 hlayout
  have hlines : layout.lines.toList = lines := by simpa [Layout.blank] using hrun.lines_after
  rw [← Array.getElem?_toList, hlines] at hline
  obtain ⟨hlt, hget⟩ := List.getElem?_eq_some_iff.1 hline
  have hsplit : lines = lines.take k ++ line :: lines.drop (k + 1) := by
    rw [← hget, List.getElem_cons_drop, List.take_append_drop]
  rw [Image.ofLayout, hlines, hsplit, Image.writeLines_append_eq_ok_iff] at himage
  obtain ⟨before, hbefore, himage⟩ := himage
  obtain ⟨after, hafter, hlast⟩ := Image.writeLines_cons_eq_ok_iff.1 himage
  have hkeeps := Image.keeps_writeLines hlast
  -- what the line itself writes
  obtain ⟨emission, resolved, encoding, hemission, hresolved, hencoding, hbytes⟩ :=
    Image.emission_of_writeLine hafter hstatement
  obtain ⟨hnodup, hread, howner, hentry⟩ := Image.bytes_writeLine hafter hemission
  rw [hbytes] at hnodup hread howner
  have hdenotes := (resolve_eq_ok_iff (isShaped_operandsOf texts)).1 hresolved
  have hlength := Resolved.length_encode hdenotes hencoding
  have hsize : before.entries.size = k := by
    rw [Image.size_entries_writeLines hbefore, List.length_take]
    change 0 + min k lines.length = k
    omega
  rw [hsize] at hentry
  -- the lines behind it keep its bytes
  have hlastRead : readBytes last.memory.read before.segments.location encoding.bytes.length =
      encoding.bytes := by
    refine (readBytes_congr fun a ha => ?_).trans hread
    exact hkeeps.read (n := line.number) (by rw [howner, if_pos ha])
  have hdecode := Resolved.decode_of_encode hdenotes hencoding hlastRead
  refine ⟨_, before.segments.location, resolved, _,
    Array.getElem?_toList.trans (hkeeps.entry hentry), rfl, rfl, hresolved, hdecode, ?_,
    Memory.decode?_buffer hdecode, rfl, ?_⟩
  · rw [OriginMap.length_addressesOf hnodup fun a => ⟨fun ha => ?_, fun ha => ?_⟩,
      length_addressesFrom, hlength]
    -- no other line has the number of this one
    · have hnumbers := hrun.nodup_numbers.1
      rw [hsplit, List.map_append, List.map_cons, List.nodup_append, List.nodup_cons] at hnumbers
      obtain ⟨-, ⟨hlater, -⟩, hearlier⟩ := hnumbers
      rcases Image.owner_writeLines hlast ha with hown | hmem
      · rw [howner] at hown
        split at hown
        · assumption
        · rcases Image.owner_writeLines hbefore hown with hblank | hmem
          · simp [Image.blank] at hblank
          · exact absurd rfl (hearlier _ hmem _ List.mem_cons_self)
      · exact absurd hmem hlater
    · exact hkeeps.lineAt? (by rw [howner, if_pos ha])
  · rw [← hlength, hlastRead]
    exact Resolved.forall₂_values hdenotes hencoding

/-- A loop around itself decodes back to an instruction with as many bytes as its line owns. -/
theorem decode_instruction_loop :
    ∃ assembly, assemble {} "loop: djnz loop" = .ok assembly ∧
      ∃ address d, Descriptor.decode assembly.memory.read address = .ok d ∧
        (assembly.origins.addressesOf 1).length = d.size := by
  obtain ⟨assembly, h⟩ :=
    exists_of_isOk (x := assemble {} "loop: djnz loop") (by decide +kernel)
  obtain ⟨layout, hlayout⟩ :=
    exists_of_isOk (x := Layout.ofSource .code "loop: djnz loop") (by decide +kernel)
  have hfirst : ((Layout.ofSource .code "loop: djnz loop").toOption.bind fun layout =>
      layout.lines[0]?.map fun line => (line.number, line.statement)) =
        some (1, .instruction "djnz" ["loop"]) := by
    decide +kernel
  rw [hlayout] at hfirst
  obtain ⟨line, hline, hparts⟩ := Option.map_eq_some_iff.1 hfirst
  obtain ⟨hnumber, hstatement⟩ := Prod.mk.inj hparts
  obtain ⟨-, address, resolved, -, -, -, -, -, hdecode, hlength, -⟩ :=
    @decode_instruction {} _ assembly layout h hlayout _ line hline _ _ hstatement
  exact ⟨assembly, h, address, resolved.descriptor, hdecode, hnumber ▸ hlength⟩

end Assembly

end Z80
