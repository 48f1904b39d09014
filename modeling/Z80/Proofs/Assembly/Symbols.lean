import Mathlib.Data.List.Nodup
import Mathlib.Tactic.Common
import Z80.Assembly.Symbols
import Z80.Proofs.Expr.Extension

/-!
# Symbol tables while they grow

Names are defined once, so what a name stands for does not change when further names are defined.

## Main definitions

* `Z80.SymbolTable.Extends` — a table with at least the symbols of another one.
* `Z80.SymbolTable.Lists` — a table with given names in lower case, and their values.

## Main results

* `Z80.SymbolTable.find?_define` — a new name is found, and all others are found as before.
* `Z80.SymbolTable.define_extends` — a definition extends a table.
* `Z80.SymbolTable.Extends.scope` — a larger table extends the scope of expressions.
* `Z80.SymbolTable.Lists.define`, `Z80.SymbolTable.Lists.value?_eq` — a name that is not listed can
  be defined, and a listed one has its value.
-/

namespace Z80.SymbolTable

variable {table larger : SymbolTable} {symbol : Symbol}

/-- The table `larger` finds the symbols that `table` finds. -/
def Extends (larger table : SymbolTable) : Prop :=
  ∀ (name : String) (symbol : Symbol), table.find? name = some symbol →
    larger.find? name = some symbol

lemma Extends.refl (table : SymbolTable) : table.Extends table := fun _ _ => id

lemma Extends.trans {largest : SymbolTable} (h : largest.Extends larger)
    (h' : larger.Extends table) : largest.Extends table :=
  fun name symbol hfound => h name symbol (h' name symbol hfound)

/-- A larger table gives values to more names. -/
lemma Extends.scope (h : larger.Extends table) (here : UInt16) :
    (larger.scope here).Extends (table.scope here) := by
  refine ⟨rfl, fun {name w} hw => ?_⟩
  obtain ⟨symbol, hfound, rfl⟩ := Option.map_eq_some_iff.1 hw
  exact Option.map_eq_some_iff.2 ⟨symbol, h name symbol hfound, rfl⟩

/-- A name is new if it is defined. -/
lemma find?_eq_none_of_define (h : table.define symbol = .ok larger) :
    table.find? symbol.name = none := by
  unfold define at h
  cases hfound : table.find? symbol.name with
  | none => rfl
  | some previous => simp [hfound] at h

/-- A definition is put behind all others. -/
lemma entries_define (h : table.define symbol = .ok larger) :
    larger.entries = table.entries.push (Text.lower symbol.name, symbol) := by
  rw [define, find?_eq_none_of_define h] at h
  obtain rfl := Except.ok.inj h
  rfl

/-- The symbols behind a definition. -/
lemma symbols_define (h : table.define symbol = .ok larger) :
    larger.symbols = table.symbols ++ [symbol] := by
  simp [symbols, entries_define h]

/-- **A new name is found, and all others are found as before.** -/
theorem find?_define (h : table.define symbol = .ok larger) (name : String) :
    larger.find? name =
      if Text.lower symbol.name = Text.lower name then some symbol else table.find? name := by
  have hnew := find?_eq_none_of_define h
  by_cases heq : Text.lower symbol.name = Text.lower name
  · have hnone : table.find? name = none := by rwa [find?, heq] at hnew
    simp only [find?, Option.map_eq_none_iff] at hnone
    simp [find?, entries_define h, Array.find?_push, hnone, heq]
  · simp [find?, entries_define h, Array.find?_push, heq]

/-- **A definition extends a table.** -/
theorem define_extends (h : table.define symbol = .ok larger) : larger.Extends table := by
  intro name found hfound
  rw [find?_define h]
  split
  · next heq =>
    have hnew := find?_eq_none_of_define h
    rw [find?, heq] at hnew
    rw [find?, hnew] at hfound
    simp at hfound
  · exact hfound

/-! ### Names in lower case -/

/-- A table of the names `names` with their values, in this order and in lower case. -/
structure Lists (table : SymbolTable) (names : List (String × UInt16)) : Prop where
  values : table.symbols.map (fun symbol => (symbol.name, symbol.value)) = names
  key : ∀ entry ∈ table.entries, entry.1 = entry.2.name

namespace Lists

variable {names : List (String × UInt16)} (h : table.Lists names)

/-- The table of no names. -/
lemma empty : SymbolTable.empty.Lists [] where
  values := rfl
  key entry hentry := by simp [SymbolTable.empty] at hentry

include h

/-- A name in lower case that is not listed is not found. -/
lemma find?_eq_none {name : String} (hlower : Text.lower name = name)
    (hnew : name ∉ names.map Prod.fst) : table.find? name = none := by
  rw [find?, Option.map_eq_none_iff, Array.find?_eq_none]
  intro entry hentry heq
  rw [beq_iff_eq, hlower, h.key entry hentry] at heq
  refine hnew ?_
  rw [← h.values, ← heq]
  refine List.mem_map.2 ⟨(entry.2.name, entry.2.value), List.mem_map.2 ⟨entry.2, ?_, rfl⟩, rfl⟩
  exact List.mem_map.2 ⟨entry, Array.mem_toList_iff.2 hentry, rfl⟩

/-- **A name in lower case that is not listed can be defined**, and it is then listed last. -/
theorem define (hlower : Text.lower symbol.name = symbol.name)
    (hnew : symbol.name ∉ names.map Prod.fst) :
    ∃ larger, table.define symbol = .ok larger ∧
      larger.Lists (names ++ [(symbol.name, symbol.value)]) := by
  have hdefine : table.define symbol =
      .ok ⟨table.entries.push (Text.lower symbol.name, symbol)⟩ := by
    rw [SymbolTable.define, h.find?_eq_none hlower hnew]
  refine ⟨_, hdefine, ?_, fun entry hentry => ?_⟩
  · rw [symbols_define hdefine, List.map_append, h.values]
    rfl
  · rcases Array.mem_push.1 hentry with hold | rfl
    · exact h.key entry hold
    · exact hlower

/-- **A listed name has its value**, if no name is listed twice. -/
theorem value?_eq {name : String} {value : UInt16} (hlower : Text.lower name = name)
    (hnodup : (names.map Prod.fst).Nodup) (hmem : (name, value) ∈ names) :
    table.value? name = some value := by
  cases hfound : table.find? name with
  | none =>
    obtain ⟨symbol, hsymbol, heq⟩ := List.mem_map.1 (h.values ▸ hmem)
    obtain ⟨rfl, rfl⟩ := Prod.mk.inj heq
    obtain ⟨entry, hentry, rfl⟩ := List.mem_map.1 hsymbol
    rw [find?, Option.map_eq_none_iff, Array.find?_eq_none] at hfound
    have hkey := hfound entry (Array.mem_toList_iff.1 hentry)
    rw [beq_iff_eq, hlower, h.key entry (Array.mem_toList_iff.1 hentry)] at hkey
    exact absurd rfl hkey
  | some symbol =>
    rw [find?, Option.map_eq_some_iff] at hfound
    obtain ⟨entry, hentry, rfl⟩ := hfound
    have hin := Array.mem_of_find?_eq_some hentry
    have hkey := Array.find?_some hentry
    rw [beq_iff_eq, hlower, h.key entry hin] at hkey
    have hlisted : (entry.2.name, entry.2.value) ∈ names := by
      rw [← h.values]
      refine List.mem_map.2 ⟨entry.2, ?_, rfl⟩
      exact List.mem_map.2 ⟨entry, Array.mem_toList_iff.2 hin, rfl⟩
    have hpair := List.inj_on_of_nodup_map hnodup hlisted hmem hkey
    rw [value?, find?, hentry]
    exact congrArg some (Prod.mk.inj hpair).2

end Lists

end Z80.SymbolTable
