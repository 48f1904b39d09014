import Z80.Proofs.Assembly.FirstPass

/-!
# The lines of one segment

The location counter of a segment is moved by the lines that stand while the segment is active, and
by no others.  So the first pass lays out three threads of lines, one for each segment, and these
have only the names in common.

## Main definitions

* `Z80.Clause` — the definition and the statement of a line.
* `Z80.thread` — the lines that stand while a segment is active.
* `Z80.Source.Definition.binding`, `Z80.Source.Statement.counterBehind` — the name that a line
  defines, and where it leaves the location counter.
* `Z80.Conform` — lines of one segment whose names have the values that they are given.

## Main results

* `Z80.Layout.Run.conform` — the threads of a text conform to the names behind it.
* `Z80.Layout.Run.covers` — names to which the threads of a text conform cover those of the text.

## Design

An expression may use the names of all segments, in front of it.  What it is worth does not change
when names are added, so each thread can be said to conform to the names of the whole text, and the
order of the threads is lost.  That the values of two texts agree is then shown along the lines of
one of them: its threads are those of the other, and the names in front of a line have values
already.
-/

namespace Z80

open Source (Definition Statement)

/-! ### Clauses -/

/-- What a line says: the name that it defines, and its statement. -/
structure Clause where
  definition : Option Definition
  statement : Statement

/-- The segment that a statement makes active. -/
def Source.Statement.target? : Statement → Option Segment
  | .segment target => some target
  | _ => none

namespace Clause

/-- What a line of text says, which is nothing if it cannot be read. -/
def ofText (text : String) : Clause :=
  match Source.Line.ofText text with
  | .ok line =>
    match Statement.ofText line.statement with
    | .ok statement => ⟨line.definition, statement⟩
    | .error _ => ⟨none, .empty⟩
  | .error _ => ⟨none, .empty⟩

/-- A line that does not end the text, and that defines no name if it makes a segment active. -/
structure IsOrderly (clause : Clause) : Prop where
  not_stop : clause.statement ≠ .stop
  unlabelled : clause.statement.target?.isSome → clause.definition = none

instance : DecidablePred IsOrderly := fun clause =>
  decidable_of_iff
    (clause.statement ≠ .stop ∧ (clause.statement.target?.isSome → clause.definition = none))
    ⟨fun h => ⟨h.1, h.2⟩, fun h => ⟨h.not_stop, h.unlabelled⟩⟩

end Clause

/-- The lines that stand while a segment is active. -/
def thread (segment : Segment) : (active : Segment) → List Clause → List Clause
  | _, [] => []
  | active, clause :: more =>
    match clause.statement.target? with
    | some target => thread segment target more
    | none =>
      if segment = active then clause :: thread segment active more
      else thread segment active more

/-! ### One line under a scope -/

/-- The name of a definition, and its value. -/
def Source.Definition.binding (scope : Expr.Scope) :
    Definition → Except Expr.Error (String × UInt16)
  | label name => .ok (name, scope.here)
  | constant name text => (Expr.evaluateWord scope text).map fun value => (name, value)

/-- Where a statement leaves the location counter of its segment. -/
def Source.Statement.counterBehind (scope : Expr.Scope) : Statement → Except Fault UInt16
  | .empty | .stop | .segment _ => .ok scope.here
  | .origin text => liftExpr (Expr.evaluateWord scope text)
  | .bytes operands => .ok (scope.here + UInt16.ofNat (byteCounts operands))
  | .words operands => .ok (scope.here + UInt16.ofNat (2 * operands.length))
  | .space text => (liftExpr (Expr.evaluateWord scope text)).map (scope.here + ·)
  | .instruction word texts =>
    match resolve scope word (operandsOf texts) with
    | .ok resolved => .ok (scope.here + UInt16.ofNat resolved.descriptor.size)
    | .error error => .error (.instruction error)

section Extends

variable {t s : Expr.Scope} (h : t.Extends s)

include h

/-- A definition keeps its value when further names are known. -/
lemma binding_extends {definition : Definition} {bound : String × UInt16}
    (hs : definition.binding s = .ok bound) : definition.binding t = .ok bound := by
  cases definition with
  | label name =>
    rw [Source.Definition.binding, h.here_eq]
    exact hs
  | constant name text =>
    obtain ⟨value, hvalue, rfl⟩ := map_eq_ok_iff.1 hs
    exact map_eq_ok_iff.2 ⟨value, Expr.evaluateWord_extends h hvalue, rfl⟩

/-- A statement leaves the counter where it did when further names are known. -/
lemma counterBehind_extends {statement : Statement} {next : UInt16}
    (hs : statement.counterBehind s = .ok next) : statement.counterBehind t = .ok next := by
  cases statement with
  | empty | stop | segment | bytes | words =>
    rw [Source.Statement.counterBehind, h.here_eq]
    exact hs
  | origin text =>
    exact liftExpr_eq_ok_iff.2 (Expr.evaluateWord_extends h (liftExpr_eq_ok_iff.1 hs))
  | space text =>
    obtain ⟨size, hsize, rfl⟩ := map_eq_ok_iff.1 hs
    refine map_eq_ok_iff.2 ⟨size, liftExpr_eq_ok_iff.2
      (Expr.evaluateWord_extends h (liftExpr_eq_ok_iff.1 hsize)), ?_⟩
    rw [h.here_eq]
  | instruction word texts =>
    simp only [Source.Statement.counterBehind] at hs ⊢
    split at hs
    · next resolved hresolved =>
      rw [resolve_extends h (isShaped_operandsOf texts) hresolved, h.here_eq]
      exact hs
    · simp at hs

end Extends

/-! ### Values of names -/

namespace SymbolTable

variable {table larger : SymbolTable}

/-- A table gives to each name of another one the value that it has there. -/
def Covers (larger table : SymbolTable) : Prop :=
  ∀ (name : String) (value : UInt16), table.value? name = some value →
    larger.value? name = some value

/-- A table covers the tables that it extends. -/
lemma Extends.covers (h : larger.Extends table) : larger.Covers table :=
  fun _ _ hvalue => (h.scope 0).lookup_eq hvalue

/-- Expressions keep their values under a table that covers. -/
lemma Covers.scope (h : larger.Covers table) (here : UInt16) :
    (larger.scope here).Extends (table.scope here) :=
  ⟨rfl, h _ _⟩

/-- Tables that cover each other give the same values. -/
lemma Covers.antisymm (h : larger.Covers table) (h' : table.Covers larger) :
    larger.value? = table.value? := by
  funext name
  cases hvalue : table.value? name with
  | some value => exact h name value hvalue
  | none =>
    rw [Option.eq_none_iff_forall_ne_some]
    intro value hlarger
    simp [h' name value hlarger] at hvalue

/-- A name has the same value in any case of its letters. -/
lemma value?_congr (table : SymbolTable) {name other : String}
    (h : Text.lower name = Text.lower other) : table.value? name = table.value? other := by
  simp only [value?, find?, h]

/-- A name without a value can be defined. -/
lemma exists_define {symbol : Symbol} (h : table.value? symbol.name = none) :
    ∃ larger, table.define symbol = .ok larger := by
  rw [value?, Option.map_eq_none_iff] at h
  exact ⟨_, by rw [define, h]⟩

/-- A name that is defined has no value before. -/
lemma value?_eq_none {symbol : Symbol} (h : table.define symbol = .ok larger) :
    table.value? symbol.name = none := by
  rw [value?, find?_eq_none_of_define h, Option.map_none]

/-- The values behind a definition. -/
lemma value?_define {symbol : Symbol} (h : table.define symbol = .ok larger) (name : String) :
    larger.value? name =
      if Text.lower symbol.name = Text.lower name then some symbol.value
      else table.value? name := by
  rw [value?, find?_define h]
  split <;> rfl

end SymbolTable

/-! ### Layouts -/

namespace Segments

variable {segments : Segments}

lemma active_moveTo (address : UInt16) : (segments.moveTo address).active = segments.active := by
  unfold moveTo
  split <;> rfl

/-- Only the counter of the active segment is moved. -/
lemma counter_moveTo (address : UInt16) (segment : Segment) :
    (segments.moveTo address).counter segment =
      if segment = segments.active then address else segments.counter segment := by
  cases hactive : segments.active <;> cases segment <;> simp [moveTo, hactive, counter]

lemma moveTo_location : segments.moveTo segments.location = segments := by
  obtain ⟨active, absolute, code, data⟩ := segments
  cases active <;> rfl

lemma counter_switch (target segment : Segment) :
    (segments.switch target).counter segment = segments.counter segment := by
  cases segment <;> rfl

end Segments

namespace Layout

variable {before named after : Layout} {number : Nat}

/-- A name that is defined has the value of its definition behind it, and all others have the values
that they had. -/
lemma define_binding {definition : Option Definition}
    (h : before.define number definition = .ok named) :
    (∀ d ∈ definition, ∃ bound, d.binding before.scope = .ok bound ∧
      named.symbols.value? bound.1 = some bound.2) ∧
    ∀ name value, named.symbols.value? name = some value →
      before.symbols.value? name = some value ∨
      ∃ d ∈ definition, ∃ bound, d.binding before.scope = .ok bound ∧
        Text.lower bound.1 = Text.lower name ∧ bound.2 = value := by
  have hname {d : Definition} {kind : Symbol.Kind} {name : String} {value : UInt16}
      (hbound : d.binding before.scope = .ok (name, value))
      (h : before.name number kind name value = .ok named) :
      (∀ d' ∈ some d, ∃ bound, d'.binding before.scope = .ok bound ∧
        named.symbols.value? bound.1 = some bound.2) ∧
      ∀ name' value', named.symbols.value? name' = some value' →
        before.symbols.value? name' = some value' ∨
        ∃ d' ∈ some d, ∃ bound, d'.binding before.scope = .ok bound ∧
          Text.lower bound.1 = Text.lower name' ∧ bound.2 = value' := by
    obtain ⟨symbols, hdefine, rfl⟩ := name_eq_ok h
    refine ⟨fun d' hd' => ?_, fun name' value' hvalue => ?_⟩
    · obtain rfl := Option.some.inj hd'
      exact ⟨_, hbound, by rw [SymbolTable.value?_define hdefine, if_pos rfl]⟩
    · rw [SymbolTable.value?_define hdefine] at hvalue
      split at hvalue
      · next hfold => exact .inr ⟨d, rfl, _, hbound, hfold, Option.some.inj hvalue⟩
      · exact .inl hvalue
  match definition with
  | none =>
    obtain rfl := Except.ok.inj h
    exact ⟨by simp, fun _ _ => .inl⟩
  | some (.label name) => exact hname rfl h
  | some (.constant name text) =>
    obtain ⟨value, hvalue, h⟩ := bind_eq_ok_iff.1 h
    exact hname (map_eq_ok_iff.2 ⟨value, liftExpr_eq_ok_iff.1 hvalue, rfl⟩) h

/-- A statement makes a segment active, or moves the counter of the active one. -/
lemma place_counterBehind {statement : Statement} (h : before.place statement = .ok after) :
    (∃ target, statement.target? = some target ∧
      after.segments = before.segments.switch target) ∨
    (statement.target? = none ∧ ∃ next, statement.counterBehind before.scope = .ok next ∧
      after.segments = before.segments.moveTo next) := by
  cases statement with
  | segment target =>
    obtain rfl := Except.ok.inj h
    exact .inl ⟨target, rfl, rfl⟩
  | empty | stop =>
    obtain rfl := Except.ok.inj h
    exact .inr ⟨rfl, _, rfl, Segments.moveTo_location.symm⟩
  | bytes | words =>
    obtain rfl := Except.ok.inj h
    exact .inr ⟨rfl, _, rfl, rfl⟩
  | origin text =>
    obtain ⟨address, haddress, h⟩ := bind_eq_ok_iff.1 h
    obtain rfl := Except.ok.inj h
    exact .inr ⟨rfl, address, haddress, rfl⟩
  | space text =>
    obtain ⟨size, hsize, h⟩ := bind_eq_ok_iff.1 h
    obtain rfl := Except.ok.inj h
    exact .inr ⟨rfl, _, map_eq_ok_iff.2 ⟨size, hsize, rfl⟩, rfl⟩
  | instruction word texts =>
    simp only [place] at h
    split at h
    · next resolved hresolved =>
      obtain rfl := Except.ok.inj h
      refine .inr ⟨rfl, _, ?_, rfl⟩
      simp only [Source.Statement.counterBehind, hresolved]
      rfl
    · simp at h

/-- What a line that is read says. -/
lemma Reads.clause_ofText {text : String} {line : PreparedLine}
    (h : before.Reads number text named line after) :
    (Clause.ofText text).statement = line.statement ∧
      before.define number (Clause.ofText text).definition = .ok named := by
  obtain ⟨parts, hparts, hdefine, hstatement⟩ := h.defined
  simp only [Clause.ofText, hparts, hstatement]
  exact ⟨trivial, hdefine⟩

/-- An orderly line does not end the text. -/
lemma Reads.not_stop {text : String} {line : PreparedLine}
    (h : before.Reads number text named line after) (horderly : (Clause.ofText text).IsOrderly) :
    line.statement ≠ .stop :=
  h.clause_ofText.1 ▸ horderly.not_stop

/-- Names that cover those in front of a line, and have the value of its definition, cover those
behind it. -/
lemma Reads.covers {text : String} {line : PreparedLine} {symbols : SymbolTable}
    (h : before.Reads number text named line after) (hcovers : symbols.Covers before.symbols)
    (hname : ∀ d ∈ (Clause.ofText text).definition, ∃ bound,
      d.binding (symbols.scope before.segments.location) = .ok bound ∧
        symbols.value? bound.1 = some bound.2) : symbols.Covers after.symbols := by
  intro name value hvalue
  rw [h.symbols_after] at hvalue
  rcases (define_binding h.clause_ofText.2).2 name value hvalue with
    hbefore | ⟨d, hd, bound, hbound, hfold, rfl⟩
  · exact hcovers _ _ hbefore
  · obtain ⟨own, hown, hlast⟩ := hname d hd
    have := binding_extends (hcovers.scope before.segments.location) hbound
    obtain rfl := Except.ok.inj (hown.symm.trans this)
    rwa [← SymbolTable.value?_congr _ hfold]

/-- **A line makes a segment active and defines nothing, or moves the counter of the active
segment** under the names behind it. -/
theorem Reads.effect {text : String} {line : PreparedLine}
    (h : before.Reads number text named line after) (horderly : (Clause.ofText text).IsOrderly) :
    (∃ target, (Clause.ofText text).statement.target? = some target ∧
      after.segments = before.segments.switch target ∧ after.symbols = before.symbols) ∨
    ((Clause.ofText text).statement.target? = none ∧ ∃ next,
      (Clause.ofText text).statement.counterBehind
        (after.symbols.scope before.segments.location) = .ok next ∧
      after.segments = before.segments.moveTo next) := by
  obtain ⟨hstatement, hdefine⟩ := h.clause_ofText
  have hsegments := h.segments_named
  rw [hstatement]
  rcases place_counterBehind h.placed with ⟨target, htarget, hafter⟩ | ⟨hnone, next, hnext, hafter⟩
  · refine .inl ⟨target, htarget, ?_, ?_⟩
    · rw [hafter]
      exact congrArg (Segments.switch · target) hsegments
    · rw [horderly.unlabelled (by rw [hstatement, htarget]; rfl)] at hdefine
      rw [h.symbols_after, Except.ok.inj hdefine]
  · refine .inr ⟨hnone, next, ?_, ?_⟩
    · rw [h.symbols_after, ← hsegments]
      exact hnext
    · rw [hafter]
      exact congrArg (Segments.moveTo · next) hsegments

end Layout

/-! ### Threads -/

/-- Lines of one segment, from a location on, whose definitions have the values that names are
given. -/
inductive Conform (symbols : SymbolTable) : UInt16 → List Clause → Prop
  | nil (location : UInt16) : Conform symbols location []
  | cons {location next : UInt16} {clause : Clause} {more : List Clause}
      (hname : ∀ definition ∈ clause.definition, ∃ bound,
        definition.binding (symbols.scope location) = .ok bound ∧
          symbols.value? bound.1 = some bound.2)
      (hplace : clause.statement.counterBehind (symbols.scope location) = .ok next)
      (hmore : Conform symbols next more) : Conform symbols location (clause :: more)

/-- The lines behind a directive for a segment. -/
lemma thread_cons_of_target {segment active target : Segment} {clause : Clause}
    {more : List Clause} (h : clause.statement.target? = some target) :
    thread segment active (clause :: more) = thread segment target more := by
  simp only [thread, h]

/-- A line that is no directive for a segment is one of the active segment. -/
lemma thread_cons_of_none {segment active : Segment} {clause : Clause}
    {more : List Clause} (h : clause.statement.target? = none) :
    thread segment active (clause :: more) =
      if segment = active then clause :: thread segment active more
      else thread segment active more := by
  simp only [thread, h]

namespace Layout

variable {before after : Layout} {number : Nat} {texts : List String} {lines : List PreparedLine}

/-- **The threads of a text conform to the names behind it.**

**Proof sketch.** Induction on the lines.  A line was laid out under the names in front of it, and
keeps its place and its value under all names. -/
theorem Run.conform (h : Run before number texts lines after)
    (horderly : ∀ text ∈ texts, (Clause.ofText text).IsOrderly) (segment : Segment) :
    Conform after.symbols (before.segments.counter segment)
      (thread segment before.segments.active (texts.map Clause.ofText)) := by
  induction h with
  | nil => exact .nil _
  | stop hline hstop => exact absurd hstop (hline.not_stop (horderly _ List.mem_cons_self))
  | @cons before named after last number text more line lines hline hstop hmore ih =>
    obtain ⟨hfirst, hothers⟩ := List.forall_mem_cons.1 horderly
    have hrest := ih hothers
    rw [List.map_cons]
    rcases hline.effect hfirst with ⟨target, htarget, hsegments, -⟩ |
      ⟨hnone, next, hnext, hsegments⟩
    · rw [hsegments, Segments.counter_switch] at hrest
      rw [thread_cons_of_target htarget]
      exact hrest
    · rw [hsegments, Segments.counter_moveTo, Segments.active_moveTo] at hrest
      rw [thread_cons_of_none hnone]
      split
      · next hactive =>
        subst hactive
        rw [if_pos rfl] at hrest
        have hlast := hmore.symbols_extends.covers.scope before.segments.location
        refine .cons (fun d hd => ?_) (counterBehind_extends hlast hnext) hrest
        obtain ⟨bound, hbound, hvalue⟩ := (define_binding hline.clause_ofText.2).1 d hd
        rw [← hline.symbols_after] at hvalue
        have hbefore := hline.symbols_extends.covers.scope before.segments.location
        exact ⟨bound, binding_extends hlast (binding_extends hbefore hbound),
          hmore.symbols_extends.covers _ _ hvalue⟩
      · next hactive =>
        rw [if_neg hactive] at hrest
        exact hrest

/-- **Names to which the threads of a text conform cover those of the text.**

**Proof sketch.** Induction on the lines.  In front of a line the names are covered, so the line has
the place and the value there that it has in its thread. -/
theorem Run.covers (h : Run before number texts lines after)
    (horderly : ∀ text ∈ texts, (Clause.ofText text).IsOrderly) {symbols : SymbolTable}
    (hcovers : symbols.Covers before.symbols)
    (hconform : ∀ segment, Conform symbols (before.segments.counter segment)
      (thread segment before.segments.active (texts.map Clause.ofText))) :
    symbols.Covers after.symbols := by
  induction h with
  | nil => exact hcovers
  | stop hline hstop => exact absurd hstop (hline.not_stop (horderly _ List.mem_cons_self))
  | @cons before named after last number text more line lines hline hstop hmore ih =>
    obtain ⟨hfirst, hothers⟩ := List.forall_mem_cons.1 horderly
    rw [List.map_cons] at hconform
    suffices hafter : symbols.Covers after.symbols ∧ ∀ segment,
        Conform symbols (after.segments.counter segment)
          (thread segment after.segments.active (more.map Clause.ofText)) from
      ih hothers hafter.1 hafter.2
    rcases hline.effect hfirst with ⟨target, htarget, hsegments, hsymbols⟩ |
      ⟨hnone, next, hnext, hsegments⟩
    · refine ⟨hsymbols ▸ hcovers, fun segment => ?_⟩
      rw [hsegments, Segments.counter_switch]
      have hthread := hconform segment
      rwa [thread_cons_of_target htarget] at hthread
    · have hown := hconform before.segments.active
      rw [thread_cons_of_none hnone, if_pos rfl] at hown
      cases hown with
      | cons hname hplace hrest =>
        have hafter := hline.covers hcovers hname
        refine ⟨hafter, fun segment => ?_⟩
        rw [hsegments, Segments.counter_moveTo, Segments.active_moveTo]
        split
        · next hactive =>
          have := counterBehind_extends (hafter.scope before.segments.location) hnext
          obtain rfl := Except.ok.inj (hplace.symm.trans this)
          exact hactive ▸ hrest
        · next hactive =>
          have hthread := hconform segment
          rwa [thread_cons_of_none hnone, if_neg hactive] at hthread

end Layout

end Z80
