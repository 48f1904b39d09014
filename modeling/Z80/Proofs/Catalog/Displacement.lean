import Z80.Proofs.Catalog.DecodeBack
import Z80.Proofs.Expr.Compact

/-!
# Displacements as they are written

An operand such as `( IX + Size )` is encoded as its displacement, which is read from the compact
form of the operand.  The displacement of the text as it is written is the same, if blanks and
capitals say nothing in it.  Every other operand is read as it is written.

## Main definitions

* `Z80.Operand.IsWritten` — an index register and a displacement in parentheses, as an operand.
* `Z80.Resolved.EncodesDisplacement` — whether the encodings of an instruction hold the displacement
  that a text is worth.

## Main results

* `Z80.Operand.shape_of_isWritten` — what is kept of the displacement.
* `Z80.Resolved.encode_indexed` — the displacement of an encoded instruction.
* `Z80.Resolved.encode_indexed_loose` — displacements that are not read as they are written.
-/

namespace Z80

open Z80.Expr (squeezed isTight evaluateDisplacement evaluateByte)

/-! ### Operands -/

namespace Operand

/-- Whether an operand is written as an index register with a displacement, which starts with its
sign, in parentheses. -/
def IsWritten (operand : Operand) (index : Index) (displacement : String) : Prop :=
  ∃ name : List Char,
    operand.text.toList = '(' :: (name ++ displacement.toList) ++ [')'] ∧
      squeezed name = index.name.toList ∧
      ∃ sign ∈ displacement.toList.head?, sign = '+' ∨ sign = '-'

/-- The compact form of such an operand. -/
lemma IsWritten.compactChars_eq {operand : Operand} {index : Index} {displacement : String}
    (h : operand.IsWritten index displacement) :
    ∃ sign cs, squeezed displacement.toList = sign :: cs ∧ (sign = '+' ∨ sign = '-') ∧
      compactChars operand.text = '(' :: (index.name.toList ++ sign :: cs) ++ [')'] := by
  obtain ⟨name, htext, hname, sign, hsign, hsigns⟩ := h
  obtain ⟨cs, hcs⟩ := List.head?_eq_some_iff.1 (Option.mem_def.1 hsign)
  have hdisplacement : squeezed displacement.toList = sign :: squeezed cs := by
    rw [hcs]
    rcases hsigns with rfl | rfl <;> exact Expr.squeezed_cons (by decide)
  refine ⟨sign, squeezed cs, hdisplacement, hsigns, ?_⟩
  have hsqueezed : compactChars operand.text = squeezed operand.text.toList := rfl
  have hopening : squeezed ('(' :: (name ++ displacement.toList)) =
      '(' :: squeezed (name ++ displacement.toList) := Expr.squeezed_cons (by decide)
  have hclosing : squeezed [')'] = [')'] := Expr.squeezed_cons (by decide)
  rw [hsqueezed, htext, Expr.squeezed_append, hopening, hclosing, Expr.squeezed_append, hname,
    hdisplacement]

/-- **What is kept of a displacement is its text without blanks and in lower case.** -/
theorem shape_of_isWritten {text : String} {index slot : Index} {displacement : String}
    {kept : Option String} (h : (ofText text).IsWritten index displacement)
    (hshape : (ofText text).shape = .indexed slot kept) :
    (ofText text).shape =
      .indexed index (some (String.ofList (squeezed displacement.toList))) := by
  obtain ⟨sign, cs, hdisplacement, hsign, hcompact⟩ := h.compactChars_eq
  have hof : (ofText text).shape = .ofCompact (compactChars (ofText text).text) := by rw [ofText]
  have hindexed : indexed? (index.name.toList ++ sign :: cs) =
      some (index, some (String.ofList (sign :: cs))) := by
    rcases hsign with rfl | rfl <;> cases index <;> rfl
  rw [hof, hcompact] at hshape ⊢
  rw [hdisplacement]
  simp only [Shape.ofCompact, enclosed?, List.cons_append] at hshape ⊢
  split at hshape
  · next inner henclosed =>
    split at henclosed
    · rw [List.dropLast_concat] at henclosed
      obtain rfl := Option.some.inj henclosed
      simp only [hindexed]
    · cases henclosed
  · split at hshape <;> cases hshape

end Operand

/-! ### The catalog -/

/-- Whether an instruction has its displacement behind two bytes, and at most one byte more as an
operand. -/
def Descriptor.isLaidOutBy (d : Descriptor) (i : Index) : Bool :=
  d.template.encoded.head? = some (.indexed i) &&
    d.template.encoded.tail.all (· = .byte) && (d.space = .index i || d.space = .indexBit i)

/-- **Every instruction with an indexed slot has its displacement in the same place.** -/
lemma Descriptor.isLaidOutBy_of_mem {d : Descriptor} (hd : d ∈ all) {i : Index}
    (h : .indexed i ∈ d.template.encoded) : d.isLaidOutBy i := by
  have key := of_mem_all
    (P := fun d => [Index.ix, .iy].all fun i =>
      !d.template.encoded.contains (.indexed i) || d.isLaidOutBy i)
    (by decide +kernel) hd
  have hi : i ∈ [Index.ix, .iy] := by cases i <;> simp
  simpa [h] using List.all_eq_true.1 key i hi

/-! ### Instructions -/

namespace Resolved

variable {r : Resolved} {scope before : Expr.Scope} {word : String} {operands : List Operand}
  {operand : Operand} {i : Index}

/-- Whether the encodings of an instruction hold the displacement that a text is worth, behind two
bytes: it is encoded if the text has such a value and its other operands have theirs. -/
def EncodesDisplacement (r : Resolved) (scope : Expr.Scope) (operands : List Operand)
    (text : String) : Prop :=
  (∀ e, r.encode scope operands = .ok e →
    ∃ o, evaluateDisplacement scope text = .ok o ∧ e.bytes[2]? = some o.toUInt8) ∧
  ((∃ e, r.encode scope operands = .ok e) ↔
    (∃ o, evaluateDisplacement scope text = .ok o) ∧
      ∀ other, (.byte, other) ∈ r.filled operands → ∃ b, evaluateByte scope other.text = .ok b)

/-- Texts that are the same displacement are encoded alike. -/
lemma EncodesDisplacement.congr {text text' : String}
    (h : r.EncodesDisplacement scope operands text)
    (htext : (evaluateDisplacement scope text).toOption =
      (evaluateDisplacement scope text').toOption) :
    r.EncodesDisplacement scope operands text' := by
  simpa only [EncodesDisplacement, toOption_eq_iff.1 htext] using h

/-- Operands that are bytes are encoded if they have values. -/
lemma exists_encodeOperands_iff {filled : List (Slot × Operand)} {here : UInt16}
    (h : ∀ entry ∈ filled, entry.1 = .byte) :
    (∃ bytes, encodeOperands scope here filled = .ok bytes) ↔
      ∀ entry ∈ filled, ∃ b, evaluateByte scope entry.2.text = .ok b := by
  induction filled generalizing here with
  | nil => simp [encodeOperands]
  | cons entry filled ih =>
    obtain ⟨slot, other⟩ := entry
    obtain rfl : slot = .byte := h _ List.mem_cons_self
    have hfilled := fun here => @ih here fun entry hmem => h entry (List.mem_cons_of_mem _ hmem)
    rw [List.forall_mem_cons]
    constructor
    · rintro ⟨bytes, hbytes⟩
      obtain ⟨first, hfirst, hbytes⟩ := bind_eq_ok_iff.1 hbytes
      obtain ⟨rest, hrest, -⟩ := bind_eq_ok_iff.1 hbytes
      obtain ⟨b, hb, -⟩ := map_eq_ok_iff.1 hfirst
      exact ⟨⟨b, liftExpr_eq_ok_iff.1 hb⟩, (hfilled _).1 ⟨rest, hrest⟩⟩
    · rintro ⟨⟨b, hb⟩, hmore⟩
      have hfirst : Slot.byte.encode scope here other = .ok [b] :=
        map_eq_ok_iff.2 ⟨b, liftExpr_eq_ok_iff.2 hb, rfl⟩
      obtain ⟨rest, hrest⟩ := (hfilled (here + 1)).2 hmore
      exact ⟨[b] ++ rest, bind_eq_ok_iff.2 ⟨_, hfirst, bind_eq_ok_iff.2 ⟨rest, hrest, rfl⟩⟩⟩

/-- The displacement of an instruction with an indexed slot comes first among the operands that are
encoded, and the others are bytes. -/
lemma encodedOperands_indexed (h : r.Denotes before word operands)
    (hmem : (.indexed i, operand) ∈ r.filled operands) :
    ∃ more, r.encodedOperands operands = (.indexed i, operand) :: more ∧
      (∀ entry ∈ more, entry.1 = .byte) ∧ r.head.length = 2 := by
  have hfst := h.map_fst_encodedOperands
  have hmem' : (.indexed i, operand) ∈ r.encodedOperands operands := List.mem_filter.2 ⟨hmem, rfl⟩
  have hslot : .indexed i ∈ r.descriptor.template.encoded := by
    rw [← hfst]
    exact List.mem_map_of_mem hmem'
  have hlaid := Descriptor.isLaidOutBy_of_mem h.mem_all hslot
  simp only [Descriptor.isLaidOutBy, Bool.and_eq_true, Bool.or_eq_true, decide_eq_true_eq,
    List.all_eq_true, ← hfst] at hlaid
  obtain ⟨⟨hhead, htail⟩, hspace⟩ := hlaid
  obtain ⟨entry, more, hsplit⟩ := List.exists_cons_of_ne_nil (List.ne_nil_of_mem hmem')
  rw [hsplit] at hmem' hhead htail ⊢
  have hmore : ∀ entry ∈ more, entry.1 = .byte := fun entry hentry =>
    htail _ (List.mem_map_of_mem hentry)
  refine ⟨more, ?_, hmore, ?_⟩
  · rcases List.mem_cons.1 hmem' with heq | hin
    · rw [heq]
    · exact absurd (hmore _ hin) (by simp)
  · unfold head
    rcases hspace with hspace | hspace <;> rw [hspace] <;> rfl

/-- The operands behind a displacement are encoded if all operands that are bytes have values. -/
lemma exists_encodeOperands_more_iff {more : List (Slot × Operand)} {here : UInt16}
    (hoperands : r.encodedOperands operands = (.indexed i, operand) :: more)
    (hmore : ∀ entry ∈ more, entry.1 = .byte) :
    (∃ rest, encodeOperands scope here more = .ok rest) ↔
      ∀ other, (.byte, other) ∈ r.filled operands → ∃ b, evaluateByte scope other.text = .ok b := by
  have hfilled (other : Operand) :
      (.byte, other) ∈ r.filled operands ↔ (.byte, other) ∈ more := by
    have hencoded : (.byte, other) ∈ r.encodedOperands operands ↔
        (.byte, other) ∈ r.filled operands := by simp [encodedOperands, Slot.isEncoded]
    simp [← hencoded, hoperands]
  rw [exists_encodeOperands_iff hmore]
  constructor
  · exact fun h other hother => h (.byte, other) ((hfilled other).1 hother)
  · rintro h ⟨slot, other⟩ hentry
    obtain rfl : slot = .byte := hmore _ hentry
    exact h other ((hfilled other).2 hentry)

/-- An operand in an indexed slot is encoded as its displacement. -/
lemma encodesDisplacement_of_shape (h : r.Denotes before word operands)
    (hmem : (.indexed i, operand) ∈ r.filled operands) {index : Index} {text : String}
    (hshape : operand.shape = .indexed index (some text)) :
    r.EncodesDisplacement scope operands text := by
  obtain ⟨more, hoperands, hmore, hhead⟩ := encodedOperands_indexed h hmem
  have hdisplacement (here : UInt16) (bytes : List UInt8) :
      Slot.encode scope here operand (.indexed i) = .ok bytes ↔
        ∃ o, evaluateDisplacement scope text = .ok o ∧ bytes = [o.toUInt8] := by
    simp only [Slot.encode, displacementByte, hshape, map_eq_ok_iff, liftExpr_eq_ok_iff]
    grind
  have hencoded {e : Encoding} (he : r.encode scope operands = .ok e) :
      ∃ o here rest, evaluateDisplacement scope text = .ok o ∧
        encodeOperands scope here more = .ok rest ∧
          e.bytes = r.head ++ o.toUInt8 :: (rest ++ r.tail) := by
    obtain ⟨bytes, hall, he⟩ := exists_of_encode he
    rw [hoperands] at hall
    obtain ⟨first, hfirst, hall⟩ := bind_eq_ok_iff.1 hall
    obtain ⟨rest, hrest, hall⟩ := bind_eq_ok_iff.1 hall
    obtain rfl := Except.ok.inj hall
    obtain ⟨o, ho, rfl⟩ := (hdisplacement _ _).1 hfirst
    exact ⟨o, _, rest, ho, hrest, by simp [he]⟩
  refine ⟨fun e he => ?_, ?_, ?_⟩
  · obtain ⟨o, -, rest, ho, -, hall⟩ := hencoded he
    refine ⟨o, ho, ?_⟩
    rw [hall, List.getElem?_append_right (Nat.le_of_eq hhead), hhead]
    rfl
  · rintro ⟨e, he⟩
    obtain ⟨o, here, rest, ho, hrest, -⟩ := hencoded he
    exact ⟨⟨o, ho⟩, (exists_encodeOperands_more_iff hoperands hmore).1 ⟨rest, hrest⟩⟩
  · rintro ⟨⟨o, ho⟩, hothers⟩
    obtain ⟨rest, hrest⟩ : ∃ rest,
        encodeOperands scope (scope.here + UInt16.ofNat r.head.length + 1) more = .ok rest :=
      (exists_encodeOperands_more_iff hoperands hmore).2 hothers
    have hall : encodeOperands scope (scope.here + UInt16.ofNat r.head.length)
        (r.filled operands) = .ok ([o.toUInt8] ++ rest) := by
      rw [encodeOperands_filter]
      refine (congrArg _ hoperands).trans ?_
      have hfirst := (hdisplacement (scope.here + UInt16.ofNat r.head.length) _).2 ⟨o, ho, rfl⟩
      exact bind_eq_ok_iff.2 ⟨_, hfirst, bind_eq_ok_iff.2 ⟨rest, hrest, rfl⟩⟩
    exact ⟨_, bind_eq_ok_iff.2 ⟨_, hall, rfl⟩⟩

/-- **The displacement of an instruction is that of its operand as it is written**, if blanks and
capitals say nothing in it: the byte behind the two first ones is the displacement, and the
instruction is not encoded if the text has no such value.  In any case it is the displacement of the
text without its blanks and in lower case.

**Proof sketch.** The kept text is the squeezed one, and a tight text is the same expression. -/
theorem encode_indexed {texts : List String}
    (hresolve : resolve before word (texts.map Operand.ofText) = .ok r)
    (hmem : (.indexed i, operand) ∈ r.filled (texts.map Operand.ofText)) {index : Index}
    {displacement : String} (hwritten : operand.IsWritten index displacement)
    (scope : Expr.Scope) :
    r.EncodesDisplacement scope (texts.map Operand.ofText)
        (String.ofList (squeezed displacement.toList)) ∧
      (isTight displacement.toList →
        r.EncodesDisplacement scope (texts.map Operand.ofText) displacement) := by
  have hdenotes := (resolve_eq_ok_iff (Operand.isShaped_of_mem_map texts)).1 hresolve
  obtain ⟨text, -, rfl⟩ := List.mem_map.1 (List.of_mem_zip hmem).2
  obtain ⟨kept, hkept⟩ : ∃ kept, (Operand.ofText text).shape = .indexed i kept := by
    have haccepts := hdenotes.accepts
    simp only [Template.accepts, Bool.and_eq_true, List.all_eq_true] at haccepts
    have hslot := haccepts.2 _ hmem
    simp only [Slot.accepts] at hslot
    split at hslot
    · next written kept hshape =>
      obtain rfl : written = i := by simpa using hslot
      exact ⟨kept, hshape⟩
    · cases hslot
  have hsqueezed : r.EncodesDisplacement scope (texts.map Operand.ofText)
      (String.ofList (squeezed displacement.toList)) :=
    encodesDisplacement_of_shape hdenotes hmem (Operand.shape_of_isWritten hwritten hkept)
  exact ⟨hsqueezed, fun htight => hsqueezed.congr (Expr.evaluateDisplacement_squeezed htight)⟩

/-- Blanks around the sign and capitals of a name say nothing. -/
theorem encode_indexed_name :
    ∃ r e, resolve (.bare 0) "ld" (["( IX - Size )", "5"].map Operand.ofText) = .ok r ∧
      r.encode ⟨fun name => if name = "size" then some 3 else none, 0⟩
        (["( IX - Size )", "5"].map Operand.ofText) = .ok e ∧
      ∃ o, evaluateDisplacement ⟨fun name => if name = "size" then some 3 else none, 0⟩ "- Size " =
        .ok o ∧ e.bytes[2]? = some o.toUInt8 ∧ o.toUInt8 = 0xFD := by
  have key : (resolve (.bare 0) "ld" (["( IX - Size )", "5"].map Operand.ofText)).toOption.any
      (fun r => (r.filled (["( IX - Size )", "5"].map Operand.ofText)).contains
          (.indexed .ix, Operand.ofText "( IX - Size )") &&
        (r.encode ⟨fun name => if name = "size" then some 3 else none, 0⟩
          (["( IX - Size )", "5"].map Operand.ofText)).isOk) := by
    decide +kernel
  have hwritten : (Operand.ofText "( IX - Size )").IsWritten .ix "- Size " :=
    ⟨[' ', 'I', 'X', ' '], by decide +kernel, by decide +kernel, '-', by decide, .inr rfl⟩
  have hvalue : evaluateDisplacement ⟨fun name => if name = "size" then some 3 else none, 0⟩
      "- Size " = .ok (-3) := by
    decide +kernel
  cases hr : resolve (.bare 0) "ld" (["( IX - Size )", "5"].map Operand.ofText) with
  | error fault => simp only [hr, Except.toOption, Option.any_none, Bool.false_eq_true] at key
  | ok r =>
    simp only [hr, Except.toOption, Option.any_some, Bool.and_eq_true, List.contains_iff_mem] at key
    obtain ⟨hmem, hencode⟩ := key
    obtain ⟨e, he⟩ := exists_of_isOk hencode
    obtain ⟨hholds, -⟩ := (encode_indexed hr hmem hwritten _).2 (by decide +kernel)
    obtain ⟨o, ho, hbyte⟩ := hholds e he
    obtain rfl := Except.ok.inj (ho.symm.trans hvalue)
    exact ⟨r, e, rfl, he, _, ho, hbyte, by decide⟩

/-- **Blanks and capitals may say something.**  An operator runs into the numbers around it, and the
instruction is not encoded; the literal in `(ix+"A")` is encoded as one of `a`. -/
theorem encode_indexed_loose :
    (Operand.ofText "(ix+7 and 3)").IsWritten .ix "+7 and 3" ∧
      evaluateDisplacement (.bare 0) "+7 and 3" = .ok 3 ∧
      (resolve (.bare 0) "inc" (["(ix+7 and 3)"].map Operand.ofText)).toOption.map (fun r =>
        (r.template.slots,
          (r.encode (.bare 0) (["(ix+7 and 3)"].map Operand.ofText)).toOption.map Encoding.bytes)) =
        some ([.indexed .ix], none) ∧
    (Operand.ofText "(ix+\"A\")").IsWritten .ix "+\"A\"" ∧
      evaluateDisplacement (.bare 0) "+\"A\"" = .ok 0x41 ∧
      (resolve (.bare 0) "inc" (["(ix+\"A\")"].map Operand.ofText)).toOption.map (fun r =>
        (r.template.slots,
          (r.encode (.bare 0) (["(ix+\"A\")"].map Operand.ofText)).toOption.map Encoding.bytes)) =
        some ([.indexed .ix], some [0xDD, 0x34, 0x61]) :=
  ⟨⟨['i', 'x'], by decide +kernel, by decide +kernel, '+', by decide, .inl rfl⟩,
    by decide +kernel, by decide +kernel,
    ⟨['i', 'x'], by decide +kernel, by decide +kernel, '+', by decide, .inl rfl⟩,
    by decide +kernel, by decide +kernel⟩

end Resolved

end Z80
