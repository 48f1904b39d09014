import Z80.Proofs.Assembly.LineBytes
import Z80.Proofs.Assembly.Passage

/-!
# What a space directive reserves

The size of space is an expression that is read like any word, so that it may be negative.  Space of
a size that is not reserves as many addresses as the size says; a negative size is taken modulo 2 to
the 16th.

## Main results

* `Z80.Assembly.space_reserves` — what a space directive of an assembled text reserves.
* `Z80.Assembly.exists_assemble_space` — a text with nothing but space is assembled.
* `Z80.Assembly.negative_space_reserves` — space of size -1 is nearly all of memory.
-/

namespace Z80

namespace Assembly

variable {options : Assembly.Options} {source : String} {assembly : Assembly} {layout : Layout}

/-- **A space directive reserves its size modulo 2 to the 16th.**  The size is the value of its
operand under the final names and with the address of the line as the location, and lies between
-32768 and 65535.  The line owns that many addresses, which hold zeros, and the first pass has moved
on by this number.  So the line owns as many addresses as the size says unless that is negative. -/
theorem space_reserves (h : assemble options source = .ok assembly)
    (hlayout : Layout.ofSource options.segment source = .ok layout) {k : Nat}
    {line : PreparedLine} (hline : layout.lines[k]? = some line) {text : String}
    (hstatement : line.statement = .space text) :
    ∃ before after size, Layout.ComesBy options.segment source k line before after ∧
      Expr.evaluate (assembly.symbols.scope before.segments.location) text = .ok size ∧
      -32768 ≤ size.toInt ∧ size.toInt ≤ 65535 ∧
      assembly.Holds k line before.segments.location
        (List.replicate (size.toInt % 65536).toNat 0) ∧
      ((assembly.origins.addressesOf line.number).length : Int) = size.toInt % 65536 ∧
      ((assembly.origins.addressesOf line.number).length = size.toInt ↔ 0 ≤ size.toInt) ∧
      after.segments = before.segments.advance (UInt16.ofInt size.toInt) := by
  obtain ⟨before, after, emission?, hcomes, hemission, hheld⟩ := exists_comesBy h hlayout hline
  rw [hstatement] at hemission
  obtain ⟨w, hw, hemission⟩ := bind_eq_ok_iff.1 hemission
  obtain rfl := Except.ok.inj hemission
  obtain ⟨hholds, hafter⟩ := hheld _ rfl
  obtain ⟨size, hsize, hlow, hhigh, hmod⟩ :=
    Expr.evaluateWord_eq_ok_iff.1 (liftExpr_eq_ok_iff.1 hw)
  have hcount : (size.toInt % 65536).toNat = w.toNat := by omega
  have hlength : ((assembly.origins.addressesOf line.number).length : Int) =
      size.toInt % 65536 := by
    rw [hholds.length_eq, List.length_replicate, hmod]
  have hword : UInt16.ofNat (List.replicate w.toNat (0 : UInt8)).length =
      UInt16.ofInt size.toInt := by
    rw [List.length_replicate, ← hcount]
    rfl
  refine ⟨before, after, size, hcomes, hsize, hlow, hhigh, hcount ▸ hholds, hlength, ?_,
    hword ▸ hafter⟩
  rw [hlength]
  omega

/-- Space of size 3 is three addresses. -/
theorem space_reserves_three :
    ∃ assembly, assemble {} " ds 3" = .ok assembly ∧
      (assembly.origins.addressesOf 1).length = 3 := by
  obtain ⟨assembly, h⟩ := exists_of_isOk (x := assemble {} " ds 3") (by decide +kernel)
  obtain ⟨layout, hlayout⟩ :=
    exists_of_isOk (x := Layout.ofSource .code " ds 3") (by decide +kernel)
  have hfirst : ((Layout.ofSource .code " ds 3").toOption.bind fun layout =>
      layout.lines[0]?.map fun line => (line.number, line.statement)) =
        some (1, .space "3") := by
    decide +kernel
  rw [hlayout] at hfirst
  obtain ⟨line, hline, hparts⟩ := Option.map_eq_some_iff.1 hfirst
  obtain ⟨hnumber, hstatement⟩ := Prod.mk.inj hparts
  obtain ⟨before, -, size, -, hsize, -, -, -, hlength, -⟩ :=
    @space_reserves {} _ assembly layout h hlayout _ line hline _ hstatement
  have hthree : Expr.IsNumeral "3".toList 3 :=
    ⟨by decide, List.all_eq_true.1 (by decide), by decide +kernel⟩
  rw [Expr.evaluate_numeral _ hthree] at hsize
  obtain rfl := Except.ok.inj hsize
  rw [hnumber] at hlength
  exact ⟨assembly, h, Int.ofNat.inj hlength⟩

/-- **A text with nothing but space is assembled**, whatever the size, and the line owns that many
addresses. -/
theorem exists_assemble_space {line : PreparedLine} {text : String} {size : UInt16}
    (hlayout : Layout.ofSource options.segment source = .ok layout)
    (hlines : layout.lines.toList = [line]) (hstatement : line.statement = .space text)
    (hsize : Expr.evaluateWord (layout.symbols.scope 0) text = .ok size) :
    ∃ assembly, assemble options source = .ok assembly ∧
      (assembly.origins.addressesOf line.number).length = size.toNat := by
  set zeros : List UInt8 := List.replicate size.toNat 0 with hzeros
  set image : Image := .blank options.segment with himage
  have hlocation : image.segments.location = 0 := by
    rw [himage]
    cases options.segment <;> rfl
  have hemission : line.statement.emission? (layout.symbols.scope image.segments.location) =
      .ok (some ⟨zeros, false, none⟩) := by
    rw [hstatement, hlocation]
    exact bind_eq_ok_iff.2 ⟨size, liftExpr_eq_ok_iff.2 hsize, rfl⟩
  -- no size is larger than the address space
  have hnodup : (addressesFrom 0 zeros.length).Nodup := by
    refine nodup_addressesFrom ?_
    rw [hzeros, List.length_replicate]
    exact Nat.le_of_lt size.toNat_lt
  have hroom : image.HasRoom (cellsFrom 0 zeros) := by
    refine ⟨by rwa [map_fst_cellsFrom], fun a _ => ?_⟩
    exact Option.isSome_eq_false_iff.2 (Option.isNone_iff_eq_none.2 (OriginMap.lineAt?_blank a))
  obtain ⟨written, hwritten, -⟩ :=
    @Image.exists_emit 0 image line.number zeros hlocation hroom
  obtain ⟨last, hline⟩ : ∃ last, image.writeLine layout.symbols line = .ok last :=
    ⟨_, Image.writeLine_eq_ok_iff.2 (.inr ⟨_, written, hemission, hwritten, rfl⟩)⟩
  have hlast : Image.ofLayout options.segment layout = .ok last := by
    rw [Image.ofLayout, hlines]
    exact Image.writeLines_cons_eq_ok_iff.2 ⟨last, hline, rfl⟩
  obtain ⟨-, -, howner, -⟩ := Image.bytes_writeLine hline hemission
  have hiff (a : UInt16) : last.origins.lineAt? a = some line.number ↔
      a ∈ addressesFrom 0 zeros.length := by
    have hempty : image.origins.lineAt? a = none := OriginMap.lineAt?_blank a
    simp [howner, hempty, hlocation]
  refine ⟨_, assemble_eq_ok_iff.2 ⟨layout, last, hlayout, hlast, rfl⟩, ?_⟩
  rw [OriginMap.length_addressesOf hnodup hiff, length_addressesFrom, hzeros,
    List.length_replicate]

/-- **Space of size -1 is assembled**, and its line owns all addresses but one. -/
theorem negative_space_reserves :
    ∃ assembly, assemble {} " ds -1" = .ok assembly ∧
      Expr.evaluate (assembly.symbols.scope 0) "-1" = .ok (-1) ∧
      (assembly.origins.addressesOf 1).length = 65535 := by
  have hone : Expr.IsNumeral "1".toList 1 :=
    ⟨by decide, List.all_eq_true.1 (by decide), by decide +kernel⟩
  have hvalue (scope : Expr.Scope) : Expr.evaluate scope "-1" = .ok (-1) :=
    Expr.evaluate_signed scope true hone
  have hsize (scope : Expr.Scope) : Expr.evaluateWord scope "-1" = .ok 65535 :=
    Expr.evaluateWord_eq_ok_iff.2 ⟨-1, hvalue scope, by decide, by decide, by decide⟩
  obtain ⟨layout, hlayout⟩ :=
    exists_of_isOk (x := Layout.ofSource .code " ds -1") (by decide +kernel)
  have hread : (Layout.ofSource .code " ds -1").toOption.map (fun layout => layout.lines.toList) =
      some [⟨1, " ds -1", .space "-1"⟩] := by
    decide +kernel
  rw [hlayout] at hread
  obtain ⟨assembly, hassembly, hlength⟩ := @exists_assemble_space {} _ layout _ _ _ hlayout
    (Option.some.inj hread) rfl (hsize _)
  exact ⟨assembly, hassembly, hvalue _, hlength⟩

end Assembly

end Z80
