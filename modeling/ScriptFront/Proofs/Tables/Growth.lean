import ScriptFront.Proofs.Rules.States
import ScriptFront.Proofs.Values.Course

/-!
# How the tables grow

While statements are read, symbols are declared.  `Declares` is an account of it: it lists the
symbols that are declared between two states and stay, in the order of their declaration.  The
variables of a scope come and go and are not listed.

**Results.**

* `Declares.grows`: the tables have grown by the symbols that are listed, each at the end of its
  table, and nothing has been taken out or moved.
* `Declares.names`: the variables that are listed have been declared by `let` statements, in the
  order in which these stand in the text.
-/

namespace ScriptFront

namespace Symbol

/-- A variable with its identity, name and type. -/
def var? : Symbol → Option (Nat × TypedName)
  | .variable e => some (e.id, e.decl.typed)
  | _ => none

def proc? : Symbol → Option (Entry (Proc Expr))
  | .procedure e => some e
  | _ => none

def structDef? : Symbol → Option (Entry StructDef)
  | .struct e => some e
  | _ => none

def implBlock? : Symbol → Option (Entry (Impl Expr))
  | .impl e => some e
  | _ => none

/-- The symbol after a procedure has been added to an impl block. -/
def addProc (id : Nat) (p : Proc Expr) : Symbol → Symbol
  | .impl e => .impl (if e.id = id then ⟨e.id, { e.decl with procs := e.decl.procs ++ [p] }⟩ else e)
  | symbol => symbol

theorem var?_addProc (id : Nat) (p : Proc Expr) (symbol : Symbol) :
    (symbol.addProc id p).var? = symbol.var? := by
  cases symbol <;> rfl

theorem proc?_addProc (id : Nat) (p : Proc Expr) (symbol : Symbol) :
    (symbol.addProc id p).proc? = symbol.proc? := by
  cases symbol <;> rfl

theorem structDef?_addProc (id : Nat) (p : Proc Expr) (symbol : Symbol) :
    (symbol.addProc id p).structDef? = symbol.structDef? := by
  cases symbol <;> rfl

theorem implBlock?_addProc (id : Nat) (p : Proc Expr) (symbol : Symbol) :
    (symbol.addProc id p).implBlock? = symbol.implBlock?.map fun e =>
      if e.id = id then { e with decl := { e.decl with procs := e.decl.procs ++ [p] } } else e := by
  cases symbol <;> rfl

end Symbol

/-- The names behind the keywords of `let` statements. -/
def letNames : List Token → List String
  | [] => []
  | t :: ts =>
    if t.kind = .letWord then
      ((ts.head?.filter fun name => name.kind = .identifier).map Token.lexeme).toList ++ letNames ts
    else letNames ts

namespace State

/-- The variables with their identities, names and types. -/
def varTags (s : State) : List (Nat × TypedName) :=
  s.tables.vars.entries.map fun e => (e.id, e.decl.typed)

end State

/--
Reading goes from one state to another one, and the symbols in the list are declared on the way and
stay.  Only a `let` statement declares a variable that stays.
-/
inductive Declares : State → List Symbol → State → Prop where
  | course {s t : State} {ds : List (Nat × String)} : Course s ds t → Declares s [] t
  /-- Tokens are skipped or a problem is noted. -/
  | pass {s t : State} :
    s.Later t → t.tables = s.tables → t.nextId = s.nextId → Declares s [] t
  | trans {s t u : State} {log log' : List Symbol} :
    Declares s log t → Declares t log' u → Declares s (log ++ log') u
  | letStatement {s u : State} {keyword : Token} {rest : List Token} {name typeName : String}
    {value : Expr} :
    s.unread = keyword :: rest → keyword.kind = .letWord →
    Parse.letStatement keyword (s.consume keyword rest) =
      .ok (.letStatement keyword.pos name typeName value) u →
    Declares s [.variable ⟨s.nextId, ⟨name, typeName, value.boundValue⟩⟩] u
  | declare {s : State} (symbol : Nat → Symbol) :
    (∀ id, (symbol id).id = id) → (symbol s.nextId).kind ≠ .variable →
    Declares s [symbol s.nextId] (s.declareNext symbol)
  /-- Only an impl block that has been declared on the way grows. -/
  | addProc {s t : State} {log : List Symbol} {e : Entry (Impl Expr)} (p : Proc Expr) :
    Declares s log t → s.nextId ≤ e.id →
    Declares s (log.map (Symbol.addProc e.id p)) (t.addProc e p)
  /-- The variables of a scope are taken out at its end. -/
  | scope {s t : State} {log : List Symbol} {bindings : List (Binding Expr)} :
    Declares (s.openScope bindings) log t →
    Declares s log (t.closeScope (s.entriesFor bindings))

/-- Between two states the tables have grown by the symbols in a list. -/
structure Grows (log : List Symbol) (s t : State) : Prop where
  keeps : s.Extends t
  vars : t.varTags = s.varTags ++ log.filterMap Symbol.var?
  procedures : t.tables.procedures.entries =
    s.tables.procedures.entries ++ log.filterMap Symbol.proc?
  structs : t.tables.structs.entries = s.tables.structs.entries ++ log.filterMap Symbol.structDef?
  impls : t.tables.impls.entries = s.tables.impls.entries ++ log.filterMap Symbol.implBlock?

section Lets

open Parse

variable {s u : State} {keyword : Token} {e : Expr}

/-- A written type is compared with that of a value, and at most a problem is noted. -/
theorem Parse.checkWrittenType_later {written : Option String} {value : Expr}
    (h : checkWrittenType written value s = .ok () u) :
    s.Later u ∧ u.tables = s.tables ∧ u.nextId = s.nextId := by
  unfold checkWrittenType at h
  split at h
  · injection h with _ hu
    exact hu ▸ ⟨.refl s, rfl, rfl⟩
  · split at h
    · injection h with _ hu
      exact hu ▸ ⟨.refl s, rfl, rfl⟩
    · injection h with _ hu
      exact hu ▸ ⟨.report s _, s.tables_report _⟩

/-- A `let` statement reads an expression and then declares its variable. -/
theorem Parse.letStatement_ok (h : letStatement keyword s = .ok e u) :
    ∃ (name : Token) (rest : List Token) (typeName : String) (value : Expr)
      (ds : List (Nat × String)) (t v : State),
      s.unread = name :: rest ∧ name.kind = .identifier ∧
      e = .letStatement keyword.pos name.lexeme typeName value ∧
      Course (s.consume name rest) ds t ∧ (∃ w, expr w = .ok value t) ∧ t.Later v ∧
      v.tables = t.tables ∧ v.nextId = t.nextId ∧
      u = v.declareNext fun id => .variable ⟨id, ⟨name.lexeme, typeName, value.boundValue⟩⟩ := by
  obtain ⟨name, s₁, hname, h⟩ := bind_eq_ok_iff.mp h
  obtain ⟨hk, rest, hunread, rfl⟩ := expect_eq_ok_iff.mp hname
  obtain ⟨written, s₂, hwritten, h⟩ := bind_eq_ok_iff.mp h
  obtain ⟨eq, s₃, hassign, h⟩ := bind_eq_ok_iff.mp h
  obtain ⟨heq, rest', hunread', rfl⟩ := expect_eq_ok_iff.mp hassign
  obtain ⟨value, s₄, hvalue, h⟩ := bind_eq_ok_iff.mp h
  obtain ⟨_, s₅, hcheck, h⟩ := bind_eq_ok_iff.mp h
  injection h with he hu
  have htype := ExprRules.after_optionalType (courseRules_fits (s.consume name rest))
  rw [hwritten] at htype
  obtain ⟨ds, hds⟩ := htype.2.holds.2
  obtain ⟨es, hes⟩ := course_of_expr (State.awaits_consume (by rw [heq]; rfl)) hvalue
  obtain ⟨hlater, htables, hid⟩ := checkWrittenType_later hcheck
  exact ⟨name, rest, _, value, _, s₄, s₅, hunread, hk, he.symm,
    (hds.trans (.token hunread')).trans hes, ⟨_, hvalue⟩, hlater, htables, hid, hu.symm⟩

end Lets

section Growing

variable {s t u : State} {log log' : List Symbol}

theorem Course.later {ds : List (Nat × String)} (h : Course s ds t) : s.Later t := by
  induction h with
  | refl s => exact .refl s
  | token hunread => exact .consume hunread
  | trans _ _ ih ih' => exact ih.trans ih'
  | assign htarget _ _ ih =>
    obtain ⟨dot, eq, rest, hunread, _, _, rfl⟩ := htarget.tokens
    exact ((State.Later.consumeAll hunread).trans ih).trans
      (.of_same rfl rfl rfl rfl List.prefix_rfl)

theorem Changes.extends {ds : List (Nat × String)} (h : Changes ds s t) (hs : s.Numbered) :
    s.Extends t where
  numbered := h.numbered hs
  nextId := Nat.le_of_eq h.nextId.symm
  vars := ⟨[], by rw [h.varKeys_eq, List.append_nil], List.forall_mem_nil _⟩
  impls := ⟨[], by rw [h.impls, List.append_nil], List.forall_mem_nil _⟩

theorem Changes.varTags_eq {ds : List (Nat × String)} (h : Changes ds s t) :
    t.varTags = s.varTags := by
  have same {xs ys : List (Entry (Binding Expr))} (h : List.Forall₂ (Kept ds) xs ys) :
      ys.map (fun e => (e.id, e.decl.typed)) = xs.map fun e => (e.id, e.decl.typed) := by
    induction h with
    | nil => rfl
    | cons hef _ ih =>
      rw [List.map_cons, List.map_cons, ih]
      unfold Binding.typed
      rw [hef.id, hef.name, hef.typeName]
  exact same h.vars

namespace Grows

theorem of_changes {ds : List (Nat × String)} (h : Changes ds s t) (hs : s.Numbered) :
    Grows [] s t where
  keeps := h.extends hs
  vars := by rw [h.varTags_eq]; exact (List.append_nil _).symm
  procedures := by rw [h.procedures]; exact (List.append_nil _).symm
  structs := by rw [h.structs]; exact (List.append_nil _).symm
  impls := by rw [h.impls]; exact (List.append_nil _).symm

theorem trans (hst : Grows log s t) (htu : Grows log' t u) : Grows (log ++ log') s u where
  keeps := hst.keeps.trans htu.keeps
  vars := by rw [htu.vars, hst.vars, List.filterMap_append, List.append_assoc]
  procedures := by rw [htu.procedures, hst.procedures, List.filterMap_append, List.append_assoc]
  structs := by rw [htu.structs, hst.structs, List.filterMap_append, List.append_assoc]
  impls := by rw [htu.impls, hst.impls, List.filterMap_append, List.append_assoc]

/-- A symbol is declared at the end of its table. -/
theorem declare (hs : s.Numbered) (symbol : Nat → Symbol) (hid : ∀ id, (symbol id).id = id) :
    Grows [symbol s.nextId] s (s.declareNext symbol) := by
  have hkeeps : s.Extends (s.declareNext symbol) := .declare hs _ (hid _)
  unfold State.declareNext at hkeeps ⊢
  generalize symbol s.nextId = next at hkeeps ⊢
  cases next with
  | «variable» e =>
    exact ⟨hkeeps, by simp [State.varTags, Tables.declare, Symbol.var?], (List.append_nil _).symm,
      (List.append_nil _).symm, (List.append_nil _).symm⟩
  | procedure e =>
    exact ⟨hkeeps, (List.append_nil _).symm, rfl, (List.append_nil _).symm,
      (List.append_nil _).symm⟩
  | struct e =>
    exact ⟨hkeeps, (List.append_nil _).symm, (List.append_nil _).symm, rfl,
      (List.append_nil _).symm⟩
  | impl e =>
    exact ⟨hkeeps, (List.append_nil _).symm, (List.append_nil _).symm, (List.append_nil _).symm,
      rfl⟩

/-- A block that has been declared on the way is found under its identity and grows in its place. -/
theorem addProc (h : Grows log s t) (hs : s.Numbered) {e : Entry (Impl Expr)} (p : Proc Expr)
    (hid : s.nextId ≤ e.id) : Grows (log.map (Symbol.addProc e.id p)) s (t.addProc e p) where
  keeps := h.keeps.addProc p hid hs
  vars := by
    rw [List.filterMap_map, funext (f := Symbol.var? ∘ _) (Symbol.var?_addProc e.id p)]
    exact h.vars
  procedures := by
    rw [List.filterMap_map, funext (f := Symbol.proc? ∘ _) (Symbol.proc?_addProc e.id p)]
    exact h.procedures
  structs := by
    rw [List.filterMap_map, funext (f := Symbol.structDef? ∘ _) (Symbol.structDef?_addProc e.id p)]
    exact h.structs
  impls := by
    have hnew : (log.map (Symbol.addProc e.id p)).filterMap Symbol.implBlock? =
        (log.filterMap Symbol.implBlock?).map fun f =>
          if f.id = e.id then { f with decl := { f.decl with procs := f.decl.procs ++ [p] } }
          else f := by
      rw [List.filterMap_map, List.map_filterMap]
      exact congrArg (log.filterMap ·) (funext (Symbol.implBlock?_addProc e.id p))
    have hold := s.tables.impls.update_of_fresh e.id
      (fun block => { block with procs := block.procs ++ [p] }) fun x hx hxid => by
        have hlt := hs.impls.lt x hx
        omega
    rw [hnew, State.impls_addProc]
    simp only [SymbolTable.update] at hold ⊢
    rw [h.impls, List.map_append, hold]

end Grows

namespace Declares

/-- The tables have grown by the symbols that are listed. -/
theorem grows (h : Declares s log t) (hs : s.Numbered) : Grows log s t := by
  induction h with
  | course h => exact .of_changes (h.changes hs) hs
  | pass _ htables hid => exact .of_changes (.of_tables htables hid) hs
  | trans _ _ ih ih' =>
    have hst := ih hs
    exact hst.trans (ih' hst.keeps.numbered)
  | @letStatement s u keyword rest name typeName value _ _ h =>
    obtain ⟨name', rest', _, _, ds, t, v, _, _, he, hcourse, _, _, htables, hid, rfl⟩ :=
      Parse.letStatement_ok h
    obtain ⟨_, rfl, rfl, rfl⟩ := Expr.letStatement.inj he
    -- The variable is declared behind its value, and no identity has been used for the value.
    have hread : Grows [] s (s.consumeAll [keyword, name'] rest') :=
      .of_changes (.of_tables rfl rfl) hs
    have hchanges : Changes ds (s.consumeAll [keyword, name'] rest') t :=
      hcourse.changes hread.keeps.numbered
    have hsame : v.nextId = s.nextId := hid.trans hchanges.nextId
    have hbefore := hread.trans (.of_changes (hchanges.of_same htables hid) hread.keeps.numbered)
    rw [← hsame]
    refine hbefore.trans ?_
    exact .declare hbefore.keeps.numbered
      (fun id => .variable ⟨id, ⟨name'.lexeme, typeName, value.boundValue⟩⟩) fun _ => rfl
  | declare symbol hid _ => exact .declare hs symbol hid
  | addProc p _ hid ih => exact (ih hs).addProc hs p hid
  | @scope s t log bindings _ ih =>
    have hopen := State.Extends.openScope hs bindings
    have hinside := ih hopen.numbered
    exact ⟨.scope hs hinside.keeps, State.map_entries_closeScope hs hinside.keeps hinside.vars,
      hinside.procedures, hinside.structs, hinside.impls⟩

theorem later (h : Declares s log t) : s.Later t := by
  induction h with
  | course h => exact h.later
  | pass h _ _ => exact h
  | trans _ _ ih ih' => exact ih.trans ih'
  | letStatement hunread _ h =>
    exact (State.Later.consume hunread).trans
      (Parse.later_of_ok (fun _ => StepLaw.relates_letStatement _) h)
  | declare _ _ _ => exact .of_same rfl rfl rfl rfl List.prefix_rfl
  | addProc _ _ _ ih => exact ih.trans (.of_same rfl rfl rfl rfl List.prefix_rfl)
  | scope _ ih => exact (State.Later.openScope _ _).trans (ih.trans (.closeScope _ _))

/-- The symbols behind an impl block are no impl block of the same identity. -/
theorem map_addProc {e : Entry (Impl Expr)} (h : Declares s (.impl e :: log) t) (hs : s.Numbered)
    (p : Proc Expr) : log.map (Symbol.addProc e.id p) = log := by
  have hnodup := (h.grows hs).keeps.numbered.impls.nodup
  rw [(h.grows hs).impls, List.map_append] at hnodup
  have hother : e.id ∉ (log.filterMap Symbol.implBlock?).map Entry.id :=
    (List.nodup_cons.mp (List.nodup_append.mp hnodup).2.1).1
  have hsame : ∀ symbol ∈ log, symbol.addProc e.id p = symbol := by
    intro symbol hsymbol
    cases symbol with
    | impl f =>
      have hf : f ∈ log.filterMap Symbol.implBlock? :=
        List.mem_filterMap.mpr ⟨_, hsymbol, rfl⟩
      have hid : f.id ≠ e.id := fun h => hother (h ▸ List.mem_map_of_mem hf)
      rw [Symbol.addProc, if_neg hid]
    | _ => rfl
  rw [List.map_congr_left hsame, List.map_id']

/-- An impl block that is listed is found under its identity. -/
theorem get?_impl {e : Entry (Impl Expr)} (h : Declares s log t) (hs : s.Numbered)
    (he : .impl e ∈ log) : t.tables.impls.get? e.id = some e.decl := by
  refine (h.grows hs).keeps.numbered.impls.get?_of_mem ?_
  rw [(h.grows hs).impls]
  exact List.mem_append_right _ (List.mem_filterMap.mpr ⟨_, he, rfl⟩)

end Declares

section Names

variable {ts us : List Token}

/-- A `let` statement may start in one part of a text and end in the next one. -/
theorem letNames_append : (letNames ts ++ letNames us).Sublist (letNames (ts ++ us)) := by
  induction ts with
  | nil => exact .refl _
  | cons t ts ih =>
    rw [List.cons_append, letNames, letNames]
    split
    · rw [List.append_assoc]
      refine List.Sublist.append ?_ ih
      cases ts with
      | nil => exact List.nil_sublist _
      | cons name ts => exact .refl _
    · exact ih

/--
The variables that are listed have been declared by `let` statements, in the order in which these
stand in the text.
-/
theorem Declares.names (h : Declares s log t) : ∃ ts, s.Reads ts t ∧
    ((log.filterMap Symbol.var?).map fun v => v.2.name).Sublist (letNames ts) := by
  induction h with
  | course h =>
    obtain ⟨ts, hts⟩ := h.later.reads
    exact ⟨ts, hts, List.nil_sublist _⟩
  | pass h _ _ =>
    obtain ⟨ts, hts⟩ := h.reads
    exact ⟨ts, hts, List.nil_sublist _⟩
  | trans _ _ ih ih' =>
    obtain ⟨ts, hts, hnames⟩ := ih
    obtain ⟨us, hus, hnames'⟩ := ih'
    refine ⟨ts ++ us, hts.trans hus, ?_⟩
    rw [List.filterMap_append, List.map_append]
    exact (hnames.append hnames').trans letNames_append
  | letStatement hunread hk h =>
    obtain ⟨name, rest', _, _, ds, t, v, hnext, hname, he, hcourse, _, hlater, _, _, rfl⟩ :=
      Parse.letStatement_ok h
    obtain ⟨_, rfl, rfl, rfl⟩ := Expr.letStatement.inj he
    obtain ⟨ts, hts⟩ := (hcourse.later.trans hlater).reads
    have hreads := (State.Reads.consume hunread).trans ((State.Reads.consume hnext).trans hts)
    refine ⟨_, ⟨hreads.unread, hreads.read, hreads.depth⟩, ?_⟩
    show [name.lexeme].Sublist (letNames (_ :: name :: ts))
    rw [letNames, if_pos hk]
    simp [hname]
  | @declare s symbol _ hkind =>
    refine ⟨[], ⟨rfl, rfl, rfl⟩, ?_⟩
    cases hsymbol : symbol s.nextId with
    | «variable» e =>
      rw [hsymbol] at hkind
      exact absurd rfl hkind
    | procedure | struct | impl => exact List.nil_sublist _
  | @addProc s t log e p _ _ ih =>
    obtain ⟨ts, hts, hnames⟩ := ih
    refine ⟨ts, ⟨hts.unread, hts.read, hts.depth⟩, ?_⟩
    rw [List.filterMap_map, funext (f := Symbol.var? ∘ _) (Symbol.var?_addProc e.id p)]
    exact hnames
  | scope _ ih =>
    obtain ⟨ts, hts, hnames⟩ := ih
    exact ⟨ts, ⟨hts.unread, hts.read, hts.depth⟩, hnames⟩

end Names
end Growing
end ScriptFront
