import Mathlib.Algebra.GroupWithZero.Nat
import Z80.Proofs.Assembly.Emission

/-!
# Bytes are written once

What the second pass emits can be listed without memory: the bytes of one line after the other, each
at its address.  If no address comes twice, memory and origins hold just these bytes; otherwise the
pass ends at the first byte whose address was emitted before.

## Main definitions

* `Z80.Emitted`, `Z80.Block` — a byte that is emitted, and the bytes of a line.
* `Z80.Layout.emissions` — what the lines of a layout emit, whether or not it overlaps.
* `Z80.FirstOverlap` — the first byte of a list whose address was emitted before.
* `Z80.Image.Shows` — a listing whose bytes were written where it shows them.

## Main results

* `Z80.Image.claimAll_spec`, `Z80.Image.claimAll_eq_error_iff` — emitted bytes are written if no
  address comes twice, and otherwise up to the first overlap.
* `Z80.Image.writeLines_eq` — the second pass writes what the lines emit.
* `Z80.Image.shows_writeLines`, `Z80.Image.exists_entry_of_block` — the listing shows what is in
  memory, and all that is emitted.
* `Z80.Assembly.assemble_eq_error_iff` — where the second pass fails.
* `Z80.Assembly.emission_exact` — what an assembly holds, and where it fails for overlapping bytes.

## Design

The location of a line depends on the lengths of what was emitted before and not on where it went,
so the emissions are computed from the location counters alone.
-/

namespace Z80

open Source (Statement)

/-! ### Emissions -/

/-- A byte that a line emits at an address. -/
structure Emitted where
  line : Nat
  address : UInt16
  byte : UInt8
  deriving DecidableEq, Repr

/-- The bytes that a line emits, and the address of the first. -/
structure Block where
  line : Nat
  address : UInt16
  bytes : List UInt8
  deriving DecidableEq, Repr

/-- The bytes of a block, one behind the other. -/
def Block.emitted (b : Block) : List Emitted :=
  (cellsFrom b.address b.bytes).map fun cell => ⟨b.line, cell.1, cell.2⟩

lemma Block.length_emitted (b : Block) : b.emitted.length = b.bytes.length := by
  simp [emitted, cellsFrom]

/-- What lines emit, up to the first line whose bytes or location have no value. -/
structure Emissions where
  blocks : List Block
  failure? : Option Failure

/-- All bytes that are emitted, in their order. -/
def Emissions.emitted (emissions : Emissions) : List Emitted :=
  emissions.blocks.flatMap Block.emitted

/-- The location counters behind a statement that emits nothing. -/
def Segments.directed (segments : Segments) (scope : Expr.Scope) :
    Statement → Except Fault Segments
  | .segment target => .ok (segments.switch target)
  | .origin text => (liftExpr (Expr.evaluateWord scope text)).map segments.moveTo
  | _ => .ok segments

/-- What lines emit from some location counters on. -/
def emissionsFrom (symbols : SymbolTable) (segments : Segments) : List PreparedLine → Emissions
  | [] => ⟨[], none⟩
  | line :: more =>
    let location := segments.location
    let scope := symbols.scope location
    match line.statement.emission? scope with
    | .error fault => ⟨[], some ⟨line.number, fault⟩⟩
    | .ok none =>
      match segments.directed scope line.statement with
      | .error fault => ⟨[], some ⟨line.number, fault⟩⟩
      | .ok segments => emissionsFrom symbols segments more
    | .ok (some emission) =>
      let segments := segments.advance (UInt16.ofNat emission.bytes.length)
      let rest := emissionsFrom symbols segments more
      ⟨⟨line.number, location, emission.bytes⟩ :: rest.blocks, rest.failure?⟩

/-- What the lines of a layout emit. -/
def Layout.emissions (active : Segment) (layout : Layout) : Emissions :=
  emissionsFrom layout.symbols (.start active) layout.lines.toList

/-- The lines have values or fail for them, and never for the place of bytes. -/
lemma failure?_ne_duplicateCode {symbols : SymbolTable} {segments : Segments}
    {lines : List PreparedLine} {failure : Failure}
    (h : (emissionsFrom symbols segments lines).failure? = some failure) (address : UInt16)
    (previous : Nat) : failure.fault ≠ .duplicateCode address previous := by
  induction lines generalizing segments with
  | nil => simp [emissionsFrom] at h
  | cons line more ih =>
    simp only [emissionsFrom] at h
    split at h
    · next fault hfault =>
      obtain rfl := Option.some.inj h
      rintro rfl
      rcases emission?_eq_error hfault with hoperand | ⟨_, _, _, -, -, hinstruction⟩
      · cases hoperand
      · cases hinstruction
    · split at h
      · next fault hfault =>
        obtain rfl := Option.some.inj h
        rintro rfl
        unfold Segments.directed at hfault
        split at hfault
        · simp at hfault
        · obtain ⟨error, -, herror⟩ := liftExpr_eq_error_iff.1 (map_eq_error_iff.1 hfault)
          cases herror
        · simp at hfault
      · exact ih h
    · exact ih h

/-! ### Writing emitted bytes -/

/-- A byte of a list is the first one whose address was emitted before, by another byte. -/
def FirstOverlap (emitted : List Emitted) (e owner : Emitted) : Prop :=
  ∃ front back, emitted = front ++ e :: back ∧ (front.map Emitted.address).Nodup ∧
    owner ∈ front ∧ owner.address = e.address

namespace Image

variable {memory memory' : Memory} {origins origins' : OriginMap} {symbols : SymbolTable}
  {image : Image}

/-- Memory and origins with emitted bytes, up to the first one whose address is taken. -/
def claimAll (memory : Memory) (origins : OriginMap) :
    List Emitted → Except Failure (Memory × OriginMap)
  | [] => .ok (memory, origins)
  | e :: more =>
    match origins.claim e.address e.line with
    | .error previous => .error ⟨e.line, .duplicateCode e.address previous⟩
    | .ok origins => claimAll (memory.write e.address e.byte) origins more

/-- Emitted bytes in two portions. -/
lemma claimAll_append (first last : List Emitted) :
    claimAll memory origins (first ++ last) =
      claimAll memory origins first >>= fun written => claimAll written.1 written.2 last := by
  induction first generalizing memory origins with
  | nil => rfl
  | cons e first ih =>
    rw [List.cons_append, claimAll, claimAll]
    cases origins.claim e.address e.line with
    | error previous => rfl
    | ok origins => exact ih

/-- The bytes of a line are claimed one by one. -/
lemma claimAll_block (b : Block) :
    claimAll memory origins b.emitted =
      match claim b.line memory origins b.address b.bytes with
      | .error fault => .error ⟨b.line, fault⟩
      | .ok written => .ok written := by
  obtain ⟨line, address, bytes⟩ := b
  induction bytes generalizing memory origins address with
  | nil => rfl
  | cons v bytes ih =>
    have hcons : Block.emitted ⟨line, address, v :: bytes⟩ =
        ⟨line, address, v⟩ :: Block.emitted ⟨line, address + 1, bytes⟩ := rfl
    rw [hcons, claimAll, claim]
    cases origins.claim address line with
    | error previous => rfl
    | ok origins => exact ih (address + 1)

/-- **Bytes that were written are found at their addresses**, which are all different, and all other
addresses are as they were. -/
theorem claimAll_spec {emitted : List Emitted}
    (h : claimAll memory origins emitted = .ok (memory', origins')) :
    (emitted.map Emitted.address).Nodup ∧
      (∀ e ∈ emitted, origins.lineAt? e.address = none) ∧
      (∀ e ∈ emitted, memory'.read e.address = e.byte ∧
        origins'.lineAt? e.address = some e.line) ∧
      ∀ a ∉ emitted.map Emitted.address,
        memory'.read a = memory.read a ∧ origins'.lineAt? a = origins.lineAt? a := by
  induction emitted generalizing memory origins with
  | nil =>
    obtain ⟨rfl, rfl⟩ := Prod.mk.inj (Except.ok.inj h)
    simp
  | cons e more ih =>
    rw [claimAll] at h
    cases hfree : origins.lineAt? e.address with
    | some previous => simp [OriginMap.claim, hfree] at h
    | none =>
      simp only [OriginMap.claim, hfree] at h
      obtain ⟨hnodup, hnone, hwritten, hkept⟩ := ih h
      -- the address of the first byte is taken behind it, so it does not come again
      have hnew : e.address ∉ more.map Emitted.address := by
        intro hmem
        obtain ⟨e', he', heq⟩ := List.mem_map.1 hmem
        have htaken := hnone e' he'
        rw [OriginMap.lineAt?_assign, if_pos heq.symm] at htaken
        simp at htaken
      refine ⟨List.nodup_cons.2 ⟨hnew, hnodup⟩, ?_, ?_, fun a ha => ?_⟩
      · refine List.forall_mem_cons.2 ⟨hfree, fun e' he' => ?_⟩
        have hbefore := hnone e' he'
        rwa [OriginMap.lineAt?_assign, if_neg] at hbefore
        exact fun heq => hnew (heq ▸ List.mem_map_of_mem he')
      · refine List.forall_mem_cons.2 ⟨?_, hwritten⟩
        obtain ⟨hread, hline⟩ := hkept e.address hnew
        rw [hread, hline, Memory.read_write, if_pos rfl, OriginMap.lineAt?_assign, if_pos rfl]
        exact ⟨rfl, rfl⟩
      · rw [List.map_cons, List.mem_cons, not_or] at ha
        obtain ⟨hread, hline⟩ := hkept a ha.2
        rw [hread, hline, Memory.read_write, if_neg (Ne.symm ha.1), OriginMap.lineAt?_assign,
          if_neg (Ne.symm ha.1)]
        exact ⟨rfl, rfl⟩

/-- Bytes at different addresses that are free are all written. -/
lemma exists_claimAll {emitted : List Emitted} (hnodup : (emitted.map Emitted.address).Nodup)
    (hfree : ∀ e ∈ emitted, origins.lineAt? e.address = none) :
    ∃ written, claimAll memory origins emitted = .ok written := by
  induction emitted generalizing memory origins with
  | nil => exact ⟨_, rfl⟩
  | cons e more ih =>
    obtain ⟨hnew, hnodup⟩ := List.nodup_cons.1 hnodup
    obtain ⟨hfirst, hfree⟩ := List.forall_mem_cons.1 hfree
    simp only [claimAll, OriginMap.claim, hfirst]
    refine ih hnodup fun e' he' => ?_
    rw [OriginMap.lineAt?_assign, if_neg, hfree e' he']
    exact fun heq => hnew (heq ▸ List.mem_map_of_mem he')

/-- Nothing is written before the first byte. -/
lemma lineAt?_of_claimAll_blank {emitted : List Emitted} {a : UInt16} {line : Nat}
    (h : claimAll .blank .blank emitted = .ok (memory, origins)) :
    origins.lineAt? a = some line ↔ ∃ e ∈ emitted, e.address = a ∧ e.line = line := by
  obtain ⟨-, -, hwritten, hkept⟩ := claimAll_spec h
  constructor
  · intro ha
    by_cases hmem : a ∈ emitted.map Emitted.address
    · obtain ⟨e, he, rfl⟩ := List.mem_map.1 hmem
      exact ⟨e, he, rfl, Option.some.inj ((hwritten e he).2.symm.trans ha)⟩
    · rw [(hkept a hmem).2, OriginMap.lineAt?_blank] at ha
      simp at ha
  · rintro ⟨e, he, rfl, rfl⟩
    exact (hwritten e he).2

/-- **Writing ends at the first overlap**, and names the line that has the address.

**Proof sketch.** The bytes in front of the one that fails were written, so their addresses are
different, and the address that is taken is that of one of them.  The induction is on the bytes that
are still to be written. -/
theorem claimAll_eq_error_iff {emitted : List Emitted} {failure : Failure} :
    claimAll .blank .blank emitted = .error failure ↔
      ∃ e owner, FirstOverlap emitted e owner ∧
        failure = ⟨e.line, .duplicateCode e.address owner.line⟩ := by
  constructor
  · have key : ∀ (back front : List Emitted) (memory : Memory) (origins : OriginMap),
        claimAll .blank .blank front = .ok (memory, origins) →
        claimAll memory origins back = .error failure →
        ∃ e owner, FirstOverlap (front ++ back) e owner ∧
          failure = ⟨e.line, .duplicateCode e.address owner.line⟩ := by
      intro back
      induction back with
      | nil =>
        intro front memory origins hfront hback
        simp [claimAll] at hback
      | cons e back ih =>
        intro front memory origins hfront hback
        rw [claimAll] at hback
        cases htaken : origins.lineAt? e.address with
        | some previous =>
          simp only [OriginMap.claim, htaken, Except.error.injEq] at hback
          obtain ⟨owner, howner, haddress, rfl⟩ := (lineAt?_of_claimAll_blank hfront).1 htaken
          exact ⟨e, owner, ⟨front, back, rfl, (claimAll_spec hfront).1, howner, haddress⟩,
            hback.symm⟩
        | none =>
          simp only [OriginMap.claim, htaken] at hback
          have hnext : claimAll .blank .blank (front ++ [e]) =
              .ok (memory.write e.address e.byte, origins.assign e.address e.line) := by
            rw [claimAll_append, hfront, ok_bind, claimAll, OriginMap.claim, htaken]
            rfl
          have := ih (front ++ [e]) _ _ hnext hback
          rwa [List.append_assoc] at this
    exact key emitted [] _ _ rfl
  · rintro ⟨e, owner, ⟨front, back, rfl, hnodup, howner, haddress⟩, rfl⟩
    obtain ⟨⟨memory, origins⟩, hfront⟩ := @exists_claimAll .blank .blank front hnodup
      fun e _ => OriginMap.lineAt?_blank _
    have htaken := (lineAt?_of_claimAll_blank hfront).2 ⟨owner, howner, haddress, rfl⟩
    rw [claimAll_append, hfront, ok_bind, claimAll, OriginMap.claim, htaken]

/-! ### The second pass -/

/-- A statement that emits nothing fails where its operand has no value. -/
lemma direct_eq_error {scope : Expr.Scope} {statement : Statement} {fault : Fault}
    (h : image.segments.directed scope statement = .error fault) :
    image.direct scope statement = .error fault := by
  cases statement with
  | origin text => exact bind_eq_error_iff.2 (.inl (map_eq_error_iff.1 h))
  | _ => cases h

/-- A statement that emits nothing changes the location counters alone. -/
lemma exists_direct {scope : Expr.Scope} {statement : Statement} {segments : Segments}
    (h : image.segments.directed scope statement = .ok segments) :
    ∃ address, image.direct scope statement = .ok ({ image with segments }, address) := by
  cases statement with
  | origin text =>
    obtain ⟨w, hw, rfl⟩ := map_eq_ok_iff.1 h
    exact ⟨some w, bind_eq_ok_iff.2 ⟨w, hw, rfl⟩⟩
  | _ =>
    obtain rfl := Except.ok.inj h
    exact ⟨none, rfl⟩

/-- **The second pass writes what the lines emit**, and fails at the first overlap, or else for the
first line without values.

**Proof sketch.** Induction on the lines.  A line writes its block at the active location counter,
and behind it the counters are those from which the other lines emit. -/
theorem writeLines_eq (image : Image) (lines : List PreparedLine) :
    (image.writeLines symbols lines).map (fun last => (last.memory, last.origins)) =
      claimAll image.memory image.origins
          (emissionsFrom symbols image.segments lines).emitted >>= fun written =>
        match (emissionsFrom symbols image.segments lines).failure? with
        | some failure => .error failure
        | none => .ok written := by
  induction lines generalizing image with
  | nil => rfl
  | cons line more ih =>
    cases hemission :
        line.statement.emission? (symbols.scope image.segments.location) with
    | error fault =>
      have hline := writeLine_eq_error_iff.2 (.inl hemission)
      simp only [writeLines, hline, emissionsFrom, hemission]
      rfl
    | ok emission? =>
      cases emission? with
      | none =>
        cases hdirected :
            image.segments.directed (symbols.scope image.segments.location) line.statement with
        | error fault =>
          have hline :=
            writeLine_eq_error_iff.2 (.inr (.inl ⟨hemission, direct_eq_error hdirected⟩))
          simp only [writeLines, hline, emissionsFrom, hemission, hdirected]
          rfl
        | ok segments =>
          obtain ⟨address, hdirect⟩ := exists_direct hdirected
          have hline := writeLine_eq_ok_iff.2 (.inl ⟨address, _, hemission, hdirect, rfl⟩)
          simp only [writeLines, hline, emissionsFrom, hemission, hdirected]
          exact ih _
      | some emission =>
        have hlog : (emissionsFrom symbols image.segments (line :: more)).emitted =
            Block.emitted ⟨line.number, image.segments.location, emission.bytes⟩ ++
              (emissionsFrom symbols
                (image.segments.advance (UInt16.ofNat emission.bytes.length)) more).emitted := by
          simp only [emissionsFrom, hemission]
          rfl
        have hfailure : (emissionsFrom symbols image.segments (line :: more)).failure? =
            (emissionsFrom symbols
              (image.segments.advance (UInt16.ofNat emission.bytes.length)) more).failure? := by
          simp only [emissionsFrom, hemission]
        rw [hlog, hfailure, claimAll_append, claimAll_block]
        cases hclaim : claim line.number image.memory image.origins image.segments.location
            emission.bytes with
        | error fault =>
          have hline := writeLine_eq_error_iff.2
            (.inr (.inr ⟨emission, hemission, emit_eq_error_iff.2 hclaim⟩))
          simp only [writeLines, hline]
          rfl
        | ok written =>
          have hline := writeLine_eq_ok_iff.2
            (.inr ⟨emission, _, hemission, emit_eq_ok_iff.2 ⟨_, _, hclaim, rfl⟩, rfl⟩)
          simp only [writeLines, hline]
          exact ih _

end Image

/-! ### The listing -/

/-- Whether a statement writes zeros, which a listing leaves out. -/
def Source.Statement.isSpace : Statement → Bool
  | .space _ => true
  | _ => false

/-- A listing shows the bytes of each statement that is not space. -/
lemma isListed_eq {scope : Expr.Scope} {statement : Statement} {emission : Emission}
    (h : statement.emission? scope = .ok (some emission)) :
    emission.isListed = !statement.isSpace := by
  cases statement with
  | empty | stop | segment | origin => simp [Source.Statement.emission?] at h
  | bytes | words | space =>
    obtain ⟨_, -, h⟩ := bind_eq_ok_iff.1 h
    obtain rfl := Option.some.inj (Except.ok.inj h)
    rfl
  | instruction word texts =>
    obtain ⟨emission', hemission, heq⟩ := map_eq_ok_iff.1 h
    obtain rfl := Option.some.inj heq
    obtain ⟨-, -, -, -, -, hlisted⟩ := instructionEmission_eq_ok hemission
    exact hlisted

namespace Image

variable {image after : Image} {symbols : SymbolTable} {line : PreparedLine}
  {lines : List PreparedLine}

/-- The bytes in the entries of the listing were written, each at its address. -/
def Shows (image : Image) : Prop :=
  ∀ entry ∈ image.entries, ∀ address, entry.address = some address →
    readBytes image.memory.read address entry.bytes.length = entry.bytes ∧
      ∀ a ∈ addressesFrom address entry.bytes.length, ∃ n, image.origins.lineAt? a = some n

/-- An entry with the bytes of a line, or with none. -/
lemma entries_writeLine (h : image.writeLine symbols line = .ok after) :
    ∃ entry, after.entries = image.entries.push entry ∧ entry.line = line.number ∧
      (entry.bytes = [] ∨
        readBytes after.memory.read image.segments.location entry.bytes.length = entry.bytes ∧
        (∀ a ∈ addressesFrom image.segments.location entry.bytes.length,
          ∃ n, after.origins.lineAt? a = some n) ∧
        entry.address = some image.segments.location) := by
  rcases writeLine_eq_ok_iff.1 h with ⟨address, moved, -, hmoved, rfl⟩ |
    ⟨emission, written, hemission, hwritten, rfl⟩
  · refine ⟨⟨line.number, address, [], line.source, none⟩, ?_, rfl, .inl rfl⟩
    rw [direct_eq_ok hmoved]
    rfl
  · obtain ⟨-, hread, howner, -, hentries⟩ := emit_spec hwritten
    refine ⟨_, congrArg (Array.push · _) hentries, rfl, ?_⟩
    cases hlisted : emission.isListed with
    | false => exact .inl (by simp)
    | true =>
      refine .inr ⟨?_, fun a ha => ⟨line.number, (howner a).trans (if_pos ?_)⟩, rfl⟩
      · simpa [list] using hread
      · simpa using ha

/-- **A line keeps the listing true**: the bytes of its own entry were just written, and those of
the other entries are kept. -/
theorem shows_writeLine (h : image.writeLine symbols line = .ok after) (hshows : image.Shows) :
    after.Shows := by
  obtain ⟨entry, hentries, -, hentry⟩ := entries_writeLine h
  have hkeeps := keeps_writeLine h
  intro shown hshown address haddress
  rw [hentries, Array.mem_push] at hshown
  rcases hshown with hold | rfl
  · obtain ⟨hread, howned⟩ := hshows shown hold address haddress
    refine ⟨(readBytes_congr fun a ha => ?_).trans hread, fun a ha => ?_⟩
    · obtain ⟨n, hn⟩ := howned a ha
      exact hkeeps.read hn
    · obtain ⟨n, hn⟩ := howned a ha
      exact ⟨n, hkeeps.lineAt? hn⟩
  · rcases hentry with hnone | ⟨hread, howned, hlocation⟩
    · simp [hnone, readBytes, addressesFrom]
    · obtain rfl := Option.some.inj (hlocation.symm.trans haddress)
      exact ⟨hread, howned⟩

/-- **Lines keep the listing true.** -/
theorem shows_writeLines (h : image.writeLines symbols lines = .ok after) (hshows : image.Shows) :
    after.Shows := by
  induction lines generalizing image with
  | nil =>
    obtain rfl := Except.ok.inj h
    exact hshows
  | cons line lines ih =>
    obtain ⟨next, hnext, hrest⟩ := writeLines_cons_eq_ok_iff.1 h
    exact ih hrest (shows_writeLine hnext hshows)

/-- What a line emits is in front of what is emitted behind it. -/
lemma blocks_cons (h : image.writeLine symbols line = .ok after) :
    (emissionsFrom symbols image.segments (line :: lines)).blocks =
      (match line.statement.emission? (symbols.scope image.segments.location) with
        | .ok (some emission) => [⟨line.number, image.segments.location, emission.bytes⟩]
        | _ => []) ++ (emissionsFrom symbols after.segments lines).blocks := by
  rcases writeLine_eq_ok_iff.1 h with ⟨address, moved, hnone, hmoved, rfl⟩ |
    ⟨emission, written, hsome, hwritten, rfl⟩
  · cases hdirected :
        image.segments.directed (symbols.scope image.segments.location) line.statement with
    | error fault => simp [direct_eq_error hdirected] at hmoved
    | ok segments =>
      obtain ⟨_, hdirect⟩ := exists_direct hdirected
      obtain ⟨rfl, -⟩ := Prod.mk.inj (Except.ok.inj (hdirect.symm.trans hmoved))
      simp only [emissionsFrom, hnone, hdirected]
      rfl
  · obtain ⟨memory, origins, -, rfl⟩ := emit_eq_ok_iff.1 hwritten
    simp only [emissionsFrom, hsome]
    rfl

/-- **What a line emits is in its entry**, unless it is space.

**Proof sketch.** Induction on the lines.  The block is that of the first line, whose entry is put
behind those of the image and kept, or it is emitted behind the first line. -/
theorem exists_entry_of_block (h : image.writeLines symbols lines = .ok after) {b : Block}
    (hb : b ∈ (emissionsFrom symbols image.segments lines).blocks) :
    ∃ (k : Nat) (line : PreparedLine) (entry : Listing.Entry), lines[k]? = some line ∧
      line.number = b.line ∧ after.entries[image.entries.size + k]? = some entry ∧
      entry.line = b.line ∧ entry.address = some b.address ∧
      (line.statement.isSpace = false → entry.bytes = b.bytes) := by
  induction lines generalizing image with
  | nil => simp [emissionsFrom] at hb
  | cons line lines ih =>
    obtain ⟨next, hnext, hrest⟩ := writeLines_cons_eq_ok_iff.1 h
    rw [blocks_cons hnext, List.mem_append] at hb
    rcases hb with hown | hlater
    · split at hown
      · next emission hemission =>
        obtain rfl := List.mem_singleton.1 hown
        obtain ⟨-, -, -, hentry⟩ := bytes_writeLine hnext hemission
        refine ⟨0, line, _, rfl, rfl, (keeps_writeLines hrest).entry hentry, rfl, rfl, ?_⟩
        intro hspace
        simp [isListed_eq hemission, hspace]
      · simp at hown
    · obtain ⟨k, line', entry, hline, hnumber, hentry, hrest⟩ := ih hrest hlater
      rw [size_entries_writeLine hnext, Nat.add_assoc, Nat.add_comm 1 k] at hentry
      exact ⟨k + 1, line', entry, hline, hnumber, hentry, hrest⟩

end Image

/-! ### Assemblies -/

namespace Assembly

variable {options : Assembly.Options} {source : String} {assembly : Assembly} {layout : Layout}

/-- The number of bytes that are emitted. -/
lemma length_emitted (emissions : Emissions) :
    emissions.emitted.length = (emissions.blocks.map fun b => b.bytes.length).sum := by
  simp [Emissions.emitted, List.length_flatMap, Block.length_emitted]

/-- Memory and origins of an assembly are those of its emissions. -/
lemma map_assemble (h : Layout.ofSource options.segment source = .ok layout) :
    (assemble options source).map (fun a => (a.memory, a.origins)) =
      Image.claimAll .blank .blank (layout.emissions options.segment).emitted >>= fun written =>
        match (layout.emissions options.segment).failure? with
        | some failure => .error failure
        | none => .ok written := by
  refine Eq.trans ?_ (Image.writeLines_eq (.blank options.segment) layout.lines.toList)
  simp only [assemble, h, Image.ofLayout]
  cases (Image.blank options.segment).writeLines layout.symbols layout.lines.toList <;> rfl

/-- Memory and origins of a text that is assembled are what its lines emit, and none of them
fails. -/
lemma claimAll_of_assemble (hassembly : assemble options source = .ok assembly)
    (h : Layout.ofSource options.segment source = .ok layout) :
    Image.claimAll .blank .blank (layout.emissions options.segment).emitted =
        .ok (assembly.memory, assembly.origins) ∧
      (layout.emissions options.segment).failure? = none := by
  have hmap := map_assemble h
  rw [hassembly] at hmap
  obtain ⟨written, hwritten, hrest⟩ := bind_eq_ok_iff.1 hmap.symm
  split at hrest
  · simp at hrest
  · next hfailure => exact ⟨hwritten.trans hrest, hfailure⟩

/-- A text is assembled if what its lines emit can be written and none of them fails. -/
lemma exists_assemble {memory : Memory} {origins : OriginMap}
    (h : Layout.ofSource options.segment source = .ok layout)
    (hwritten : Image.claimAll .blank .blank (layout.emissions options.segment).emitted =
      .ok (memory, origins))
    (hfailure : (layout.emissions options.segment).failure? = none) :
    ∃ assembly, assemble options source = .ok assembly ∧ assembly.memory = memory ∧
      assembly.origins = origins ∧ assembly.symbols = layout.symbols ∧
      assembly.start? = layout.start? := by
  have hmap := map_assemble h
  rw [hwritten, ok_bind, hfailure] at hmap
  obtain ⟨assembly, hassembly, hparts⟩ := map_eq_ok_iff.1 hmap
  obtain ⟨rfl, rfl⟩ := Prod.mk.inj hparts
  obtain ⟨_, image, hlayout, -, rfl⟩ := assemble_eq_ok_iff.1 hassembly
  obtain rfl := Except.ok.inj (h.symm.trans hlayout)
  exact ⟨_, hassembly, rfl, rfl, rfl, rfl⟩

/-- **The second pass fails** at the first byte whose address was emitted before, or, if there is
none, where a line has no values. -/
theorem assemble_eq_error_iff (h : Layout.ofSource options.segment source = .ok layout)
    {failure : Failure} :
    assemble options source = .error failure ↔
      (∃ e owner, FirstOverlap (layout.emissions options.segment).emitted e owner ∧
        failure = ⟨e.line, .duplicateCode e.address owner.line⟩) ∨
      (((layout.emissions options.segment).emitted.map Emitted.address).Nodup ∧
        (layout.emissions options.segment).failure? = some failure) := by
  rw [← map_eq_error_iff, map_assemble h, bind_eq_error_iff, Image.claimAll_eq_error_iff]
  refine or_congr_right ⟨?_, ?_⟩
  · rintro ⟨⟨memory, origins⟩, hwritten, hfails⟩
    split at hfails
    · next hfailure =>
      exact ⟨(Image.claimAll_spec hwritten).1,
        hfailure.trans (congrArg _ (Except.error.inj hfails))⟩
    · simp at hfails
  · rintro ⟨hnodup, hfailure⟩
    obtain ⟨written, hwritten⟩ := @Image.exists_claimAll .blank .blank _ hnodup
      fun e _ => OriginMap.lineAt?_blank _
    exact ⟨written, hwritten, by rw [hfailure]⟩

/-- **Emission is exact and never overlaps.**  The second pass fails for overlapping bytes exactly
at the first emitted byte whose address was emitted before, and names the line that has it.  If the
text is assembled, no address comes twice: each emitted byte is in memory and belongs to its line,
all other addresses belong to no line and hold zero, and the listing shows for each line what it
emitted, unless that is space, and nothing that is not in memory.

**Proof sketch.** Memory and origins are those of the emissions, written one byte after the other,
where the first address that is taken ends the pass.  The listing follows line by line. -/
theorem emission_exact (h : Layout.ofSource options.segment source = .ok layout) :
    (∀ line address previous,
      assemble options source = .error ⟨line, .duplicateCode address previous⟩ ↔
        ∃ e owner, FirstOverlap (layout.emissions options.segment).emitted e owner ∧
          e.line = line ∧ e.address = address ∧ owner.line = previous) ∧
    ∀ assembly, assemble options source = .ok assembly →
      ((layout.emissions options.segment).emitted.map Emitted.address).Nodup ∧
      (∀ e ∈ (layout.emissions options.segment).emitted,
        assembly.memory.read e.address = e.byte ∧
          assembly.origins.lineAt? e.address = some e.line) ∧
      (∀ a ∉ (layout.emissions options.segment).emitted.map Emitted.address,
        assembly.memory.read a = 0 ∧ assembly.origins.lineAt? a = none) ∧
      assembly.origins.size =
        ((layout.emissions options.segment).blocks.map fun b => b.bytes.length).sum ∧
      (∀ entry ∈ assembly.listing.entries, ∀ address, entry.address = some address →
        readBytes assembly.memory.read address entry.bytes.length = entry.bytes) ∧
      ∀ b ∈ (layout.emissions options.segment).blocks,
        ∃ (k : Nat) (line : PreparedLine) (entry : Listing.Entry),
          layout.lines[k]? = some line ∧ line.number = b.line ∧
          assembly.listing.entries[k]? = some entry ∧ entry.line = b.line ∧
          entry.address = some b.address ∧
          (line.statement.isSpace = false → entry.bytes = b.bytes) := by
  refine ⟨fun line address previous => ?_, fun assembly hassembly => ?_⟩
  · rw [assemble_eq_error_iff h]
    constructor
    · rintro (⟨e, owner, hoverlap, heq⟩ | ⟨-, hfailure⟩)
      · simp only [Failure.mk.injEq, Fault.duplicateCode.injEq] at heq
        obtain ⟨rfl, rfl, rfl⟩ := heq
        exact ⟨e, owner, hoverlap, rfl, rfl, rfl⟩
      · exact absurd rfl (failure?_ne_duplicateCode hfailure address previous)
    · rintro ⟨e, owner, hoverlap, rfl, rfl, rfl⟩
      exact .inl ⟨e, owner, hoverlap, rfl⟩
  · obtain ⟨_, image, hlayout, himage, rfl⟩ := assemble_eq_ok_iff.1 hassembly
    obtain rfl := Except.ok.inj (h.symm.trans hlayout)
    have hmap := map_assemble h
    rw [hassembly] at hmap
    obtain ⟨⟨memory, origins⟩, hwritten, hrest⟩ := bind_eq_ok_iff.1 hmap.symm
    obtain ⟨rfl, rfl⟩ : memory = image.memory ∧ origins = image.origins := by
      split at hrest
      · simp at hrest
      · exact Prod.mk.inj (Except.ok.inj hrest)
    obtain ⟨hnodup, -, hemitted, hothers⟩ := Image.claimAll_spec hwritten
    have hshows : image.Shows := Image.shows_writeLines himage (by simp [Image.Shows, Image.blank])
    refine ⟨hnodup, hemitted, fun a ha => ?_, ?_, fun entry hentry address haddress => ?_,
      fun b hb => ?_⟩
    · obtain ⟨hread, hline⟩ := hothers a ha
      exact ⟨hread.trans (Memory.read_blank a), hline.trans (OriginMap.lineAt?_blank a)⟩
    · rw [OriginMap.size_eq_length hnodup fun a => ?_, List.length_map, length_emitted]
      by_cases ha : a ∈ (layout.emissions options.segment).emitted.map Emitted.address
      · obtain ⟨e, he, rfl⟩ := List.mem_map.1 ha
        simp [OriginMap.isOwned, (hemitted e he).2, ha]
      · simp [OriginMap.isOwned, (hothers a ha).2, ha]
    · exact (hshows entry (Array.mem_toList_iff.1 hentry) address haddress).1
    · obtain ⟨k, line, entry, hline, hnumber, hentry, hrest⟩ :=
        Image.exists_entry_of_block himage hb
      simp only [Image.blank, Array.size_empty, Nat.zero_add] at hentry
      exact ⟨k, line, entry, Array.getElem?_toList.symm.trans hline, hnumber,
        Array.getElem?_toList.trans hentry, hrest⟩

/-- Code that is moved back onto code fails, and the line that was there first is named. -/
theorem emission_exact_moved_back :
    ∃ layout, Layout.ofSource .code " org 10h\n nop\n org 10h\n halt" = .ok layout ∧
      ∃ e owner, FirstOverlap (layout.emissions .code).emitted e owner ∧
        e.line = 4 ∧ e.address = 0x10 ∧ owner.line = 2 := by
  obtain ⟨layout, hlayout⟩ := exists_of_isOk
    (x := Layout.ofSource .code " org 10h\n nop\n org 10h\n halt") (by decide +kernel)
  have hfails : (match assemble {} " org 10h\n nop\n org 10h\n halt" with
      | .error ⟨4, .duplicateCode 0x10 2⟩ => true
      | _ => false) = true := by
    decide +kernel
  refine ⟨layout, hlayout, ((@emission_exact {} _ layout hlayout).1 4 0x10 2).1 ?_⟩
  split at hfails
  · assumption
  · simp at hfails

end Assembly

end Z80
