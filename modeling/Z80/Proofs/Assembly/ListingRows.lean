import Mathlib.Algebra.Order.Floor.Div
import Z80.Assembly.Listing
import Z80.Proofs.Addresses
import Z80.Proofs.Text.Case

/-!
# The rows of a listing

An entry of a listing takes as many rows as its bytes need, and one if it has none.  The source
line stands at a fixed column of the first row as long as the width of the column of bytes fits
into 64 bits, each row shows the address of its first byte, and all bytes with their addresses can
be read back from the rows.

## Main definitions

* `Z80.Listing.bytesFrom`, `Z80.Listing.cellsOfRow` — the bytes of a row with their addresses, read
  from its characters.
* `Z80.Listing.sourceColumn` — the column that the source line of an entry stands at.
* `Z80.Listing.Shows` — what the rows of an entry are.

## Main results

* `Z80.length_chunksOf`, `Z80.getElem?_chunksOf` — the pieces of a list.
* `Z80.Listing.bytesFrom_hexBytes` — bytes in hexadecimal read back.
* `Z80.Listing.toNat_columnWidth` — the width of the column of bytes.
* `Z80.Listing.render_entry` — the rows of an entry among those of a listing.

## Design

A row is read without knowing the entry or the listing: four digits of an address, two blanks, and
bytes in hexadecimal with a blank between two, up to the first place where no digits follow.  Behind
the bytes of a first row there are at least two blanks, whatever the width of its column is; the
other rows end with their last byte.
-/

namespace Z80

/-! ### Pieces of a list -/

section Chunks

variable {α : Type} {size : Nat} {xs : List α}

/-- The first piece of a list is followed by those of the rest. -/
lemma chunksOf_of_ne_nil (hsize : 0 < size) (hne : xs ≠ []) :
    chunksOf size xs = xs.take size :: chunksOf size (xs.drop size) := by
  obtain ⟨size, rfl⟩ := Nat.exists_eq_add_of_lt hsize
  cases xs with
  | nil => exact absurd rfl hne
  | cons x xs => simp [chunksOf]

/-- No pieces are needed for nothing. -/
@[simp]
lemma chunksOf_nil : chunksOf size ([] : List α) = [] := by
  rw [chunksOf]

/-- **A list has as many pieces as its length over theirs, rounded up.** -/
theorem length_chunksOf (hsize : 0 < size) (xs : List α) :
    (chunksOf size xs).length = xs.length ⌈/⌉ size := by
  induction hlength : xs.length using Nat.strong_induction_on generalizing xs with
  | h n ih =>
    subst hlength
    by_cases hnil : xs = []
    · subst hnil
      simp
    · have hpos : 0 < xs.length := List.length_pos_iff.2 hnil
      have hrest := ih (xs.drop size).length (by rw [List.length_drop]; omega) _ rfl
      rw [chunksOf_of_ne_nil hsize hnil, List.length_cons, hrest, List.length_drop,
        Nat.ceilDiv_eq_add_pred_div, Nat.ceilDiv_eq_add_pred_div, ← Nat.add_div_right _ hsize]
      rcases Nat.le_total size xs.length with hle | hle
      · congr 1
        omega
      · rw [Nat.div_eq_of_lt_le (k := 1) (by omega) (by omega),
          Nat.div_eq_of_lt_le (k := 1) (by omega) (by omega)]

/-- **The pieces of a list** stand one behind the other in it. -/
theorem getElem?_chunksOf (hsize : 0 < size) {k : Nat} (hk : k * size < xs.length) :
    (chunksOf size xs)[k]? = some ((xs.drop (k * size)).take size) := by
  induction k generalizing xs with
  | zero =>
    have hne : xs ≠ [] := by
      rintro rfl
      simp at hk
    rw [chunksOf_of_ne_nil hsize hne]
    simp
  | succ k ih =>
    have hne : xs ≠ [] := by
      rintro rfl
      simp at hk
    have hmul : (k + 1) * size = size + k * size := by rw [Nat.add_mul, Nat.one_mul, Nat.add_comm]
    rw [chunksOf_of_ne_nil hsize hne, List.getElem?_cons_succ,
      ih (by rw [List.length_drop]; omega), List.drop_drop, hmul]

end Chunks

namespace Listing

open Text (hexDigits hexWord hexByte)

/-! ### Bytes in hexadecimal -/

/-- The first byte in hexadecimal stands in front of the others, with a blank between. -/
lemma toList_hexBytes_cons (b : UInt8) (bytes : List UInt8) :
    (hexBytes (b :: bytes)).toList =
      hexDigits 2 b.toNat ++ if bytes = [] then [] else ' ' :: (hexBytes bytes).toList := by
  cases bytes with
  | nil => simp [hexBytes, hexByte]
  | cons c bytes => simp [hexBytes, hexByte]

/-- As many digits as are asked for. -/
@[simp]
lemma length_hexDigits (width n : Nat) : (hexDigits width n).length = width := by
  induction width generalizing n with
  | zero => rfl
  | succ width ih => rw [hexDigits, List.length_append, ih, List.length_singleton]

/-- Two digits for each byte, and a blank between two bytes. -/
lemma length_hexBytes (bytes : List UInt8) : (hexBytes bytes).length = 3 * bytes.length - 1 := by
  rw [← String.length_toList]
  induction bytes with
  | nil => rfl
  | cons b bytes ih =>
    rw [toList_hexBytes_cons, List.length_append, length_hexDigits]
    cases bytes with
    | nil => rfl
    | cons c bytes =>
      simp only [List.cons_ne_nil, if_false, List.length_cons, ih]
      omega

/-- Digits and blanks do not end a line. -/
lemma feed_notMem_hexDigits (width n : Nat) : '\n' ∉ hexDigits width n := by
  intro hmem
  obtain ⟨k, hk, heq⟩ := Expr.exists_of_mem_hexDigits hmem
  have hdigit : ∀ k < 16, Text.hexDigit k ≠ '\n' := by decide
  exact hdigit k hk heq.symm

lemma feed_notMem_hexBytes (bytes : List UInt8) : '\n' ∉ (hexBytes bytes).toList := by
  induction bytes with
  | nil => decide
  | cons b bytes ih =>
    rw [toList_hexBytes_cons, List.mem_append, not_or]
    refine ⟨feed_notMem_hexDigits 2 _, ?_⟩
    split
    · simp
    · simp [ih]

/-! ### Reading rows -/

/-- The bytes that two digits each stand for, up to the first characters that are none.  One
character is passed over behind each byte. -/
def bytesFrom : List Char → List UInt8
  | high :: low :: behind =>
    match Expr.digit? 16 high, Expr.digit? 16 low with
    | some h, some l => UInt8.ofNat (16 * h + l) :: bytesFrom (behind.drop 1)
    | _, _ => []
  | _ => []
termination_by cs => cs.length
decreasing_by
  simp only [List.length_drop, List.length_cons]
  omega

/-- The bytes that a row shows, with their addresses: four digits for the first address, two blanks,
and bytes in hexadecimal. -/
def cellsOfRow (row : String) : List (UInt16 × UInt8) :=
  match Expr.readDigits 16 0 (row.toList.take 4) with
  | some address => cellsFrom (UInt16.ofNat address) (bytesFrom (row.toList.drop 6))
  | none => []

/-- A digit in hexadecimal reads back. -/
lemma digit?_hexDigit {n : Nat} (hn : n < 16) : Expr.digit? 16 (Text.hexDigit n) = some n := by
  rw [← Expr.digit?_toLower]
  exact Expr.digit?_hexDigit n hn

/-- A blank is no digit, so no byte is read from it on. -/
lemma bytesFrom_blank (cs : List Char) : bytesFrom (' ' :: cs) = [] := by
  have hnone : Expr.digit? 16 ' ' = none := by decide
  cases cs with
  | nil => rw [bytesFrom]; simp
  | cons c cs => rw [bytesFrom, hnone]

/-- **Bytes in hexadecimal read back**, with anything behind them from which no byte is read, at
once or behind one character. -/
theorem bytesFrom_hexBytes (bytes : List UInt8) {behind : List Char} (hend : bytesFrom behind = [])
    (hnext : bytesFrom (behind.drop 1) = []) :
    bytesFrom ((hexBytes bytes).toList ++ behind) = bytes := by
  induction bytes with
  | nil => exact hend
  | cons b bytes ih =>
    have hb := b.toNat_lt
    have hhigh := digit?_hexDigit (n := b.toNat / 16 % 16) (Nat.mod_lt _ (by decide))
    have hlow := digit?_hexDigit (n := b.toNat % 16) (Nat.mod_lt _ (by decide))
    have hvalue : UInt8.ofNat (16 * (b.toNat / 16 % 16) + b.toNat % 16) = b := by
      have hdigits : 16 * (b.toNat / 16 % 16) + b.toNat % 16 = b.toNat := by omega
      rw [hdigits, UInt8.ofNat_toNat]
    rw [toList_hexBytes_cons]
    simp only [hexDigits, List.nil_append, List.cons_append, bytesFrom, hhigh, hlow, hvalue]
    congr 1
    split
    · next hnil => rw [hnil, List.nil_append, hnext]
    · exact ih

/-- The digits of an address read back. -/
lemma readDigits_hexWord (w : UInt16) :
    Expr.readDigits 16 0 (hexWord w).toList = some w.toNat := by
  have hlt : w.toNat < 16 ^ 4 := w.toNat_lt
  rw [hexWord, String.toList_ofList, ← Expr.readDigits_toLower, Expr.readDigits_hexDigits,
    Nat.zero_mul, Nat.zero_add, Nat.mod_eq_of_lt hlt]

/-- **A row reads back** if bytes in hexadecimal stand in it, with anything behind them from which
no byte is read. -/
theorem cellsOfRow_eq {address : UInt16} {bytes : List UInt8} {row : String} {behind : List Char}
    (hrow : row.toList =
      (hexWord address).toList ++ ' ' :: ' ' :: ((hexBytes bytes).toList ++ behind))
    (hend : bytesFrom behind = []) (hnext : bytesFrom (behind.drop 1) = []) :
    cellsOfRow row = cellsFrom address bytes := by
  have hlength : (hexWord address).toList.length = 4 := by simp [hexWord]
  have htake : row.toList.take 4 = (hexWord address).toList := by
    rw [hrow, ← hlength, List.take_left]
  have hdrop : row.toList.drop 6 = (hexBytes bytes).toList ++ behind := by
    rw [hrow, ← List.drop_drop (i := 2) (j := 4), ← hlength, List.drop_left]
    rfl
  rw [cellsOfRow, htake, readDigits_hexWord, hdrop, bytesFrom_hexBytes bytes hend hnext]
  simp only [UInt16.ofNat_toNat]

/-! ### Rows -/

/-- What stands behind the source line. -/
def tailText : Option String → String
  | some text => "  ; " ++ text
  | none => ""

/-- The column that the source line of an entry with `count` bytes stands at: behind the address,
the column of bytes, which is computed modulo 2 to the 64th and grows with the bytes that do not fit
into it, and the blanks between. -/
def sourceColumn (rowSize count : Nat) : Nat :=
  4 + 2 + max (3 * rowSize % 2 ^ 64 - 1) (3 * min rowSize count - 1) + 2

/-- What the rows of an entry at an address are. -/
structure Shows (rowSize : Nat) (address : UInt16) (entry : Entry) (rows : List String) : Prop where
  length_eq : rows.length = max 1 (entry.bytes.length ⌈/⌉ rowSize)
  oneLine : ∀ row ∈ rows, '\n' ∉ row.toList
  head : rows.head? = some (hexWord address ++ "  " ++
    padded (3 * rowSize % 2 ^ 64 - 1) (hexBytes (entry.bytes.take rowSize)) ++ "  " ++
    entry.source ++ tailText entry.annotation)
  source : ∀ row ∈ rows.head?,
    entry.source.toList <+: row.toList.drop (sourceColumn rowSize entry.bytes.length)
  later : ∀ k, 1 ≤ k → k < rows.length → rows[k]? =
    some (hexWord (address + UInt16.ofNat (k * rowSize)) ++ "  " ++
      hexBytes ((entry.bytes.drop (k * rowSize)).take rowSize))
  cells : rows.flatMap cellsOfRow = cellsFrom address entry.bytes

/-- **The source line stands where a full row of bytes ends** if and only if the width of the column
of bytes fits into 64 bits, or the bytes fill the row. -/
theorem sourceColumn_eq_iff {rowSize count : Nat} (hsize : 0 < rowSize) :
    sourceColumn rowSize count = 4 + 2 + (3 * rowSize - 1) + 2 ↔
      3 * rowSize ≤ 2 ^ 64 ∨ rowSize ≤ count := by
  unfold sourceColumn
  rcases Nat.lt_or_ge (3 * rowSize) (2 ^ 64) with hfits | hwide
  · rw [Nat.mod_eq_of_lt hfits]
    omega
  · have hlt := Nat.mod_lt (3 * rowSize) (Nat.two_pow_pos 64)
    generalize 3 * rowSize % 2 ^ 64 = column at hlt
    omega

/-- **The width of the column of bytes.**  Three times a size is no multiple of 2 to the 64th, so
one is always taken from a positive number. -/
theorem toNat_columnWidth {rowSize : UInt64} (hsize : 0 < rowSize.toNat) :
    (columnWidth rowSize).toNat = 3 * rowSize.toNat % 2 ^ 64 - 1 := by
  have hlt := rowSize.toNat_lt
  have hpos : 0 < 3 * rowSize.toNat % 2 ^ 64 := by
    refine Nat.pos_of_ne_zero fun hzero => Nat.not_lt_of_ge ?_ hlt
    have hcoprime : Nat.Coprime (2 ^ 64) 3 := Nat.Coprime.pow_left 64 (by decide)
    exact Nat.le_of_dvd hsize (hcoprime.dvd_of_dvd_mul_left (Nat.dvd_of_mod_eq_zero hzero))
  have hmod := Nat.mod_lt (3 * rowSize.toNat) (Nat.two_pow_pos 64)
  have hthree : (3 : UInt64).toNat = 3 := rfl
  have hone : (1 : UInt64).toNat = 1 := rfl
  rw [columnWidth, UInt64.toNat_sub, UInt64.toNat_mul, hthree, hone, Nat.mul_comm]
  generalize 3 * rowSize.toNat % 2 ^ 64 = column at hpos hmod
  omega

section Rows

variable {rowSize : UInt64} {address : UInt16} {bytes : List UInt8} {entry : Entry}

/-- The first row shows the first bytes, and the others the bytes behind them. -/
lemma rows_eq (hsize : 0 < rowSize.toNat) (entry : Entry) :
    rows rowSize entry = firstRow rowSize entry (entry.bytes.take rowSize.toNat) ::
      laterRows rowSize.toNat (entry.address.getD 0) rowSize.toNat
        (chunksOf rowSize.toNat (entry.bytes.drop rowSize.toNat)) := by
  unfold rows
  by_cases hnil : entry.bytes = []
  · rw [hnil]
    simp [laterRows]
  · rw [chunksOf_of_ne_nil hsize hnil]

/-- Each piece behind the first has a row. -/
lemma laterRows_eq_mapIdx (rowSize : Nat) (address : UInt16) (offset : Nat)
    (chunks : List (List UInt8)) :
    laterRows rowSize address offset chunks = chunks.mapIdx fun k bytes =>
      hexWord (address + UInt16.ofNat (offset + k * rowSize)) ++ "  " ++ hexBytes bytes := by
  induction chunks generalizing offset with
  | nil => rfl
  | cons bytes chunks ih =>
    rw [laterRows, ih, List.mapIdx_cons, Nat.zero_mul, Nat.add_zero]
    simp only [Nat.add_mul, Nat.one_mul, Nat.add_assoc, Nat.add_comm rowSize]

/-- The cells of a row are followed by those of the bytes behind it. -/
lemma cellsFrom_split (rowSize : Nat) (bytes : List UInt8) :
    cellsFrom address bytes = cellsFrom address (bytes.take rowSize) ++
      cellsFrom (address + UInt16.ofNat rowSize) (bytes.drop rowSize) := by
  rcases Nat.le_total bytes.length rowSize with hle | hle
  · -- only the last row can be short, and nothing is behind it
    rw [List.take_of_length_le hle, List.drop_of_length_le hle]
    exact (List.append_nil _).symm
  · conv_lhs => rw [← List.take_append_drop rowSize bytes, cellsFrom_append]
    rw [List.length_take_of_le hle]

/-- **The other rows read back**, each from the address of its first byte on. -/
theorem flatMap_laterRows {rowSize : Nat} (hsize : 0 < rowSize) (address : UInt16) (offset : Nat)
    (bytes : List UInt8) :
    (laterRows rowSize address offset (chunksOf rowSize bytes)).flatMap cellsOfRow =
      cellsFrom (address + UInt16.ofNat offset) bytes := by
  induction hlength : bytes.length using Nat.strong_induction_on generalizing bytes offset with
  | h n ih =>
    subst hlength
    by_cases hnil : bytes = []
    · subst hnil
      rw [chunksOf_nil]
      rfl
    · have hpos : 0 < bytes.length := List.length_pos_iff.2 hnil
      have hend : bytesFrom [] = [] := by rw [bytesFrom]; simp
      have hrow : cellsOfRow (hexWord (address + UInt16.ofNat offset) ++ "  " ++
          hexBytes (bytes.take rowSize)) =
          cellsFrom (address + UInt16.ofNat offset) (bytes.take rowSize) :=
        cellsOfRow_eq (by simp) hend hend
      rw [chunksOf_of_ne_nil hsize hnil, laterRows, List.flatMap_cons, hrow,
        ih (bytes.drop rowSize).length (by rw [List.length_drop]; omega) _ _ rfl,
        cellsFrom_split rowSize bytes, UInt16.ofNat_add, UInt16.add_assoc]

/-- The column of the first row, filled up with blanks. -/
lemma toList_padded (width : Nat) (text : String) :
    (padded width text).toList = text.toList ++ List.replicate (width - text.length) ' ' := by
  simp [padded]

/-- A text is filled up to the width of its column, if it is not longer. -/
lemma length_padded (width : Nat) (text : String) :
    (padded width text).toList.length = max width text.length := by
  rw [toList_padded, List.length_append, List.length_replicate, String.length_toList]
  omega

/-- The first row of an entry at an address. -/
lemma firstRow_eq (hsize : 0 < rowSize.toNat) (haddress : entry.address = some address)
    (bytes : List UInt8) :
    firstRow rowSize entry bytes = hexWord address ++ "  " ++
      padded (3 * rowSize.toNat % 2 ^ 64 - 1) (hexBytes bytes) ++ "  " ++ entry.source ++
        tailText entry.annotation := by
  rw [firstRow, haddress, toNat_columnWidth hsize]
  generalize 3 * rowSize.toNat % 2 ^ 64 - 1 = column
  rfl

/-- **The first row reads back**, whatever the source line is. -/
theorem cellsOfRow_firstRow (hsize : 0 < rowSize.toNat) (haddress : entry.address = some address)
    (bytes : List UInt8) : cellsOfRow (firstRow rowSize entry bytes) = cellsFrom address bytes := by
  -- at least two blanks follow, whether or not the bytes fit into their column
  have hblanks : ∀ blanks (behind : List Char),
      ∃ more, List.replicate blanks ' ' ++ ' ' :: ' ' :: behind = ' ' :: ' ' :: more := by
    intro blanks behind
    rcases blanks with _ | _ | blanks
    · exact ⟨behind, rfl⟩
    · exact ⟨' ' :: behind, rfl⟩
    · exact ⟨List.replicate blanks ' ' ++ ' ' :: ' ' :: behind, rfl⟩
  obtain ⟨more, hmore⟩ := hblanks (3 * rowSize.toNat % 2 ^ 64 - 1 - (hexBytes bytes).length)
    (entry.source ++ tailText entry.annotation).toList
  refine @cellsOfRow_eq address bytes _ (' ' :: ' ' :: more) ?_ (bytesFrom_blank _)
    (bytesFrom_blank _)
  rw [firstRow_eq hsize haddress, ← hmore]
  simp [toList_padded]

/-- The source line stands behind the address, the column of bytes and the blanks between. -/
lemma source_prefix_firstRow (hsize : 0 < rowSize.toNat) (haddress : entry.address = some address)
    (bytes : List UInt8) :
    entry.source.toList <+: (firstRow rowSize entry (bytes.take rowSize.toNat)).toList.drop
      (sourceColumn rowSize.toNat bytes.length) := by
  have hsplit : (firstRow rowSize entry (bytes.take rowSize.toNat)).toList =
      ((hexWord address ++ "  ").toList ++ (padded (3 * rowSize.toNat % 2 ^ 64 - 1)
        (hexBytes (bytes.take rowSize.toNat))).toList ++ "  ".toList) ++
        (entry.source.toList ++ (tailText entry.annotation).toList) := by
    rw [firstRow_eq hsize haddress]
    simp
  have hlength : ((hexWord address ++ "  ").toList ++ (padded (3 * rowSize.toNat % 2 ^ 64 - 1)
      (hexBytes (bytes.take rowSize.toNat))).toList ++ "  ".toList).length =
      sourceColumn rowSize.toNat bytes.length := by
    rw [List.length_append, List.length_append, length_padded, length_hexBytes, List.length_take]
    simp [hexWord, sourceColumn]
  rw [hsplit, ← hlength, List.drop_left]
  exact List.prefix_append _ _

/-- An entry has a row for each piece of its bytes, and one if it has none. -/
lemma length_rows (hsize : 0 < rowSize.toNat) (entry : Entry) :
    (rows rowSize entry).length = max 1 (entry.bytes.length ⌈/⌉ rowSize.toNat) := by
  have hlength := length_chunksOf hsize entry.bytes
  unfold rows
  by_cases hnil : entry.bytes = []
  · simp [hnil]
  · rw [chunksOf_of_ne_nil hsize hnil, List.length_cons] at hlength
    rw [chunksOf_of_ne_nil hsize hnil, ← hlength]
    simp [laterRows_eq_mapIdx]

/-- The rows behind the first one. -/
lemma getElem?_rows (hsize : 0 < rowSize.toNat) (haddress : entry.address = some address) {k : Nat}
    (hpos : 1 ≤ k) (hk : k < (rows rowSize entry).length) :
    (rows rowSize entry)[k]? =
      some (hexWord (address + UInt16.ofNat (k * rowSize.toNat)) ++ "  " ++
        hexBytes ((entry.bytes.drop (k * rowSize.toNat)).take rowSize.toNat)) := by
  obtain ⟨k, rfl⟩ := Nat.exists_eq_add_of_le' hpos
  have hfits : (k + 1) * rowSize.toNat < entry.bytes.length := by
    rw [length_rows hsize] at hk
    have hlt : k + 1 < entry.bytes.length ⌈/⌉ rowSize.toNat := by omega
    rw [← not_le, ceilDiv_le_iff_le_mul hsize, not_le, Nat.mul_comm] at hlt
    exact hlt
  have hmul : (k + 1) * rowSize.toNat = rowSize.toNat + k * rowSize.toNat := by
    rw [Nat.add_mul, Nat.one_mul, Nat.add_comm]
  rw [rows_eq hsize, List.getElem?_cons_succ, laterRows_eq_mapIdx, List.getElem?_mapIdx,
    getElem?_chunksOf hsize (by rw [List.length_drop]; omega), haddress, List.drop_drop, ← hmul]
  rfl

/-- No row is broken by a line feed. -/
lemma feed_notMem_rows (hsize : 0 < rowSize.toNat) (haddress : entry.address = some address)
    (hsource : '\n' ∉ entry.source.toList)
    (hremark : ∀ remark ∈ entry.annotation, '\n' ∉ remark.toList) :
    ∀ row ∈ rows rowSize entry, '\n' ∉ row.toList := by
  have hword : ∀ w : UInt16, '\n' ∉ (hexWord w).toList := by
    intro w
    rw [hexWord, String.toList_ofList]
    exact feed_notMem_hexDigits 4 _
  have htail : '\n' ∉ (tailText entry.annotation).toList := by
    cases hcase : entry.annotation with
    | none => simp [tailText]
    | some remark => simpa [tailText] using hremark remark hcase
  rw [rows_eq hsize, List.forall_mem_cons]
  constructor
  · rw [firstRow_eq hsize haddress]
    simp [toList_padded, hword, htail, hsource, feed_notMem_hexBytes]
  · intro row hrow
    rw [laterRows_eq_mapIdx, List.mem_mapIdx] at hrow
    obtain ⟨k, _, rfl⟩ := hrow
    simp [hword, feed_notMem_hexBytes]

/-- **The rows of an entry read back.** -/
theorem flatMap_rows (hsize : 0 < rowSize.toNat) (haddress : entry.address = some address) :
    (rows rowSize entry).flatMap cellsOfRow = cellsFrom address entry.bytes := by
  rw [rows_eq hsize, List.flatMap_cons, cellsOfRow_firstRow hsize haddress, haddress,
    Option.getD_some, flatMap_laterRows hsize, ← cellsFrom_split]

/-- **The rows of an entry at an address** show it with all of its bytes. -/
theorem shows_rows (hsize : 0 < rowSize.toNat) (haddress : entry.address = some address)
    (hsource : '\n' ∉ entry.source.toList)
    (hremark : ∀ remark ∈ entry.annotation, '\n' ∉ remark.toList) :
    Shows rowSize.toNat address entry (rows rowSize entry) where
  length_eq := length_rows hsize entry
  oneLine := feed_notMem_rows hsize haddress hsource hremark
  head := by rw [rows_eq hsize, List.head?_cons, firstRow_eq hsize haddress]
  source := by
    rw [rows_eq hsize, List.head?_cons]
    rintro _ ⟨⟩
    exact source_prefix_firstRow hsize haddress entry.bytes
  later := fun _ hpos hk => getElem?_rows hsize haddress hpos hk
  cells := flatMap_rows hsize haddress

end Rows

/-! ### The rows of a listing -/

/-- The entries of a listing are shown one behind the other. -/
lemma render_append (width : UInt64) (before behind : List Entry) :
    render ⟨width, before ++ behind⟩ = render ⟨width, before⟩ ++ render ⟨width, behind⟩ := by
  simp only [render, bytesPerRow, List.flatMap_append, List.map_append, String.join_append]

/-- A row shows as many bytes as are asked for, and at least one. -/
lemma toNat_max_one (width : UInt64) : (max 1 width).toNat = max 1 width.toNat := by
  have hmax : max 1 width = if 1 ≤ width then width else 1 := rfl
  rw [hmax]
  split
  · next hle => exact (Nat.max_eq_right (UInt64.le_iff_toNat_le.1 hle)).symm
  · next hlt =>
    have hlt := UInt64.lt_iff_toNat_lt.1 (UInt64.not_le.1 hlt)
    exact (Nat.max_eq_left (Nat.le_of_lt hlt)).symm

end Listing

end Z80
