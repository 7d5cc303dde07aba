import ScriptFront.Proofs.Tables.Scopes
import ScriptFront.Proofs.Values.Updates

/-!
# What an assignment of a field leaves alone

Reading changes a variable that is there in one way only: by an assignment of one of its fields, the
target of which is among the tokens that are read.  A name stands for the oldest variable of that
name, so no other variable is changed, whatever instances it has in common with the one that is.

**Results.**

* `Declares.spares`: the variables in front of what is read keep their values, unless a target with
  their name is read.
* `State.assignField_eq`: an assignment of a field binds one variable anew.
* `field_assignment_spares`: what a statement, an assignment of a field and a loop leave alone.
-/

namespace ScriptFront

/-- Among the tokens is the target of an assignment of a field of a variable of that name. -/
def AssignsField (ts : List Token) (n : String) : Prop :=
  ∃ name point field eq : Token, [name, point, field, eq] <:+: ts ∧ name.kind = .identifier ∧
    point.kind = .dot ∧ field.kind = .identifier ∧ eq.kind = .assign ∧ name.lexeme = n

namespace State

/-- Between two states a field of a variable of that name is assigned. -/
def AssignsIn (s t : State) (n : String) : Prop :=
  ∃ ts, s.Reads ts t ∧ AssignsField ts n

/--
A variable of the first state that is still in the table keeps its name and type.  It keeps its
value, too, unless its name stands for it and a field of a variable of that name is assigned.
-/
def Spares (s t : State) : Prop :=
  ∀ e ∈ s.tables.vars.entries, ∀ f ∈ t.tables.vars.entries, f.id = e.id →
    f.tag = e.tag ∧
      (f = e ∨ (s.tables.vars.lookup? e.decl.name = some e ∧ s.AssignsIn t e.decl.name))

variable {s t u : State} {n : String}

theorem AssignsIn.behind (h : t.AssignsIn u n) (hst : s.Later t) : s.AssignsIn u n := by
  obtain ⟨ts, hts, htarget⟩ := h
  obtain ⟨rs, hrs⟩ := hst.reads
  obtain ⟨name, point, field, eq, hin, hkinds⟩ := htarget
  exact ⟨rs ++ ts, hrs.trans hts, name, point, field, eq,
    hin.trans (List.suffix_append rs ts).isInfix, hkinds⟩

theorem AssignsIn.before (h : s.AssignsIn t n) (htu : t.Later u) : s.AssignsIn u n := by
  obtain ⟨ts, hts, htarget⟩ := h
  obtain ⟨us, hus⟩ := htu.reads
  obtain ⟨name, point, field, eq, hin, hkinds⟩ := htarget
  exact ⟨ts ++ us, hts.trans hus, name, point, field, eq,
    hin.trans (List.prefix_append ts us).isInfix, hkinds⟩

/-- The tokens that are read are known. -/
theorem assignsIn_iff {ts : List Token} (h : s.Reads ts t) :
    s.AssignsIn t n ↔ AssignsField ts n := by
  refine ⟨fun ⟨us, hus, htarget⟩ => ?_, fun htarget => ⟨ts, h, htarget⟩⟩
  rwa [List.append_cancel_right (h.unread.symm.trans hus.unread)]

namespace ReadsTarget

variable {name field : Token} {e : Entry (Binding Expr)} {v : Instance Expr} {b : Binding Expr}

theorem later (h : s.ReadsTarget name field e v b t) : s.Later t := by
  obtain ⟨point, eq, rest, hunread, _, _, rfl⟩ := h.tokens
  exact .consumeAll hunread

/-- The target of an assignment is the target of one. -/
theorem assignsIn (h : s.ReadsTarget name field e v b t) : s.AssignsIn t name.lexeme := by
  obtain ⟨point, eq, rest, hunread, hpoint, heq, rfl⟩ := h.tokens
  exact ⟨_, .consumeAll hunread, name, point, field, eq, List.infix_rfl, h.name_kind, hpoint,
    h.field_kind, heq, rfl⟩

end ReadsTarget

/-- What a name stands for is found among the identities and names of the variables. -/
theorem map_lookup?_varKeys (s : State) (name : String) :
    (s.tables.vars.lookup? name).map (fun e => (e.id, e.decl.name)) =
      s.varKeys.find? fun key => key.2 = name := by
  unfold varKeys SymbolTable.lookup?
  rw [List.find?_map]
  rfl

namespace Extends

variable {e f : Entry (Binding Expr)}

/-- Where variables have been added, a name that stood for one stands for the same one. -/
theorem exists_lookup? (h : s.Extends t) (he : s.tables.vars.lookup? n = some e) :
    ∃ f, t.tables.vars.lookup? n = some f ∧ f.id = e.id := by
  obtain ⟨new, hkeys, _⟩ := h.vars
  have hfound := t.map_lookup?_varKeys n
  rw [hkeys, List.find?_append, ← s.map_lookup?_varKeys, he] at hfound
  obtain ⟨f, hf, hkey⟩ := Option.map_eq_some_iff.mp hfound
  exact ⟨f, hf, congrArg Prod.fst hkey⟩

/-- A variable that is found by its name now has been found by it before, if it was there. -/
theorem lookup?_of_id (h : s.Extends t) (hs : s.Numbered) (he : e ∈ s.tables.vars.entries)
    (hf : t.tables.vars.lookup? e.decl.name = some f) (hid : f.id = e.id) :
    s.tables.vars.lookup? e.decl.name = some e := by
  have hsome : (s.tables.vars.lookup? e.decl.name).isSome :=
    List.find?_isSome.mpr ⟨e, he, decide_eq_true rfl⟩
  obtain ⟨x, hx⟩ := Option.isSome_iff_exists.mp hsome
  obtain ⟨f', hf', hxid⟩ := h.exists_lookup? hx
  obtain rfl := Option.some.inj (hf.symm.trans hf')
  rw [hx, hs.vars.eq_of_id (SymbolTable.mem_of_lookup? hx) he (hxid.symm.trans hid)]

end Extends

namespace Spares

/-- Nothing is bound anew where the variables are those of before and new ones. -/
theorem of_mem (hs : s.Numbered)
    (h : ∀ f ∈ t.tables.vars.entries, f ∈ s.tables.vars.entries ∨ s.nextId ≤ f.id) :
    s.Spares t := by
  intro e he f hf hid
  rcases h f hf with hf | hle
  · obtain rfl := hs.vars.eq_of_id hf he hid
    exact ⟨rfl, .inl rfl⟩
  · have hlt := hs.vars.lt e he
    omega

theorem of_same (hs : s.Numbered) (htables : t.tables.vars = s.tables.vars) : s.Spares t :=
  .of_mem hs fun _ hf => .inl (htables ▸ hf)

theorem trans (hs : s.Numbered) (hst : s.Spares t) (hext : s.Extends t) (hlater : s.Later t)
    (htu : t.Spares u) (hlater' : t.Later u) : s.Spares u := by
  intro e he g hg hid
  obtain ⟨f, hf, hfid, hname, _⟩ := hext.exists_entry he
  obtain ⟨htag, hold⟩ := hst e he f hf hfid
  obtain ⟨htag', hnew⟩ := htu f hf g hg (hid.trans hfid.symm)
  refine ⟨htag'.trans htag, ?_⟩
  rcases hnew with rfl | ⟨hlookup, hassigns⟩
  · exact hold.imp_right fun h => ⟨h.1, h.2.before hlater'⟩
  · rw [hname] at hlookup hassigns
    exact .inr ⟨hext.lookup?_of_id hs he hlookup hfid, hassigns.behind hlater⟩

/-- Afterwards variables are taken out, and new ones are added. -/
theorem goOn (hs : s.Numbered) (hst : s.Spares t) (htu : t.Later u)
    (h : ∀ f ∈ u.tables.vars.entries, f ∈ t.tables.vars.entries ∨ s.nextId ≤ f.id) :
    s.Spares u := by
  intro e he f hf hid
  rcases h f hf with hf | hle
  · obtain ⟨htag, hsame⟩ := hst e he f hf hid
    exact ⟨htag, hsame.imp_right fun h => ⟨h.1, h.2.before htu⟩⟩
  · have hlt := hs.vars.lt e he
    omega

/-- An assignment binds the variable anew that its name stands for. -/
theorem assignField {name field : Token} {e : Entry (Binding Expr)} {v : Instance Expr}
    {b : Binding Expr} (hs : s.Numbered) (htarget : s.ReadsTarget name field e v b t)
    (htu : t.Spares u) (hlater : t.Later u) (value : Expr) :
    s.Spares (u.assignField e v field.lexeme value) := by
  intro x hx g hg hid
  obtain ⟨f, hf, rfl⟩ := List.mem_map.mp hg
  have hend : u.Later (u.assignField e v field.lexeme value) :=
    .of_same rfl rfl rfl rfl List.prefix_rfl
  have hx' : x ∈ t.tables.vars.entries := htarget.tables_eq ▸ hx
  by_cases hfid : f.id = e.id
  · rw [if_pos hfid] at hid ⊢
    obtain rfl := hs.vars.eq_of_id hx htarget.mem (hid.symm.trans hfid)
    have hname : x.decl.name = name.lexeme := SymbolTable.name_of_lookup? htarget.lookup
    refine ⟨(htu x hx' f hf hid).1, .inr ?_⟩
    rw [hname]
    exact ⟨htarget.lookup, htarget.assignsIn.before (hlater.trans hend)⟩
  · rw [if_neg hfid] at hid ⊢
    obtain ⟨htag, hsame⟩ := htu x hx' f hf hid
    rw [htarget.tables_eq] at hsame
    exact ⟨htag, hsame.imp_right fun h => ⟨h.1, (h.2.behind htarget.later).before hend⟩⟩

end Spares
end State

section Accounts

variable {s t u : State} {ds : List (Nat × String)} {log : List Symbol}

/-- Reading an expression changes the variables of which fields are assigned in it. -/
theorem Course.spares (h : Course s ds t) (hs : s.Numbered) : s.Spares t := by
  induction h with
  | refl s => exact .of_same hs rfl
  | token _ => exact .of_same hs rfl
  | trans hst htu ih ih' =>
    have hext := (hst.changes hs).extends hs
    exact (ih hs).trans hs hext hst.later (ih' hext.numbered) htu.later
  | assign htarget _ htu ih => exact .assignField hs htarget (ih (htarget.numbered hs)) htu.later _

/-- So does reading anything else: what is declared is added, and only scopes are taken out. -/
theorem Declares.spares (h : Declares s log t) (hs : s.Numbered) : s.Spares t := by
  induction h with
  | course h => exact h.spares hs
  | pass _ htables _ => exact .of_same hs (by rw [htables])
  | trans hst htu ih ih' =>
    have hext := (hst.grows hs).keeps
    exact (ih hs).trans hs hext hst.later (ih' hext.numbered) htu.later
  | @letStatement s u keyword rest name typeName value hunread _ h =>
    obtain ⟨name', rest', typeName, value, ds, t, v, hunread', _, _, hcourse, _, hlater, htables,
      hid, rfl⟩ := Parse.letStatement_ok h
    have hvalue := (Course.token hunread).trans ((Course.token hunread').trans hcourse)
    have hnext : v.nextId = s.nextId := hid.trans (hvalue.changes hs).nextId
    have hdeclare : v.Later (v.declareNext fun id =>
        .variable ⟨id, ⟨name'.lexeme, typeName, value.boundValue⟩⟩) :=
      .of_same rfl rfl rfl rfl List.prefix_rfl
    refine (hvalue.spares hs).goOn hs (hlater.trans hdeclare) fun f hf => ?_
    rw [← htables, ← hnext]
    exact State.mem_vars_declareNext (fun _ => rfl) hf
  | declare symbol hid _ => exact .of_mem hs fun _ => State.mem_vars_declareNext hid
  | addProc p h _ ih =>
    exact (ih hs).goOn hs (.of_same rfl rfl rfl rfl List.prefix_rfl) fun _ hf => .inl hf
  | @scope s t log bindings h ih =>
    have hopen := State.Extends.openScope hs bindings
    have hinside : s.Spares (s.openScope bindings) := .of_mem hs fun f hf => by
      rw [State.entries_openScope] at hf
      exact (List.mem_append.mp hf).imp_right fun hf => (State.mem_entriesFor hf).1
    have hbody : s.Spares t :=
      hinside.trans hs hopen (.openScope _ _) (ih hopen.numbered) h.later
    refine hbody.goOn hs (.closeScope _ _) fun f hf => .inl ?_
    exact (SymbolTable.entries_eraseAll_sublist _ _).subset hf

/-- Every variable stays in its place while a statement is read. -/
theorem Declares.getElem?_vars (h : Declares s log t) (hs : s.Numbered) {i : Nat}
    {e : Entry (Binding Expr)} (he : s.tables.vars.entries[i]? = some e) :
    ∃ f, t.tables.vars.entries[i]? = some f ∧ f.tag = e.tag ∧
      (f = e ∨ (s.tables.vars.lookup? e.decl.name = some e ∧ s.AssignsIn t e.decl.name)) := by
  have hplace : t.varTags[i]? = some e.tag := by
    have hlt : i < s.varTags.length := by
      rw [State.varTags, List.length_map]
      exact (List.getElem?_eq_some_iff.mp he).1
    rw [(h.grows hs).vars, List.getElem?_append_left hlt, State.varTags, List.getElem?_map, he]
    rfl
  rw [State.varTags, List.getElem?_map] at hplace
  obtain ⟨f, hf, htag⟩ := Option.map_eq_some_iff.mp hplace
  have hkept := h.spares hs e (List.mem_of_getElem? he) f (List.mem_of_getElem? hf)
    (congrArg Prod.fst htag)
  exact ⟨f, hf, hkept⟩

/-- If no field is assigned, the variables are those of before, and new ones behind them. -/
theorem Declares.vars_prefix (h : Declares s log t) (hs : s.Numbered)
    (hnone : ∀ n, ¬ s.AssignsIn t n) : s.tables.vars.entries <+: t.tables.vars.entries := by
  rw [List.prefix_iff_getElem?]
  intro i hi
  obtain ⟨f, hf, _, rfl | ⟨_, hassigns⟩⟩ := h.getElem?_vars hs (List.getElem?_eq_getElem hi)
  · exact hf
  · exact absurd hassigns (hnone _)

end Accounts

section Exactly

/-- The variable bound to the instance `v` with a field assigned. -/
def Entry.assigned (f : Entry (Binding Expr)) (v : Instance Expr) (field : String)
    (value : Expr) : Entry (Binding Expr) :=
  ⟨f.id, f.decl.rebind (.structInstance f.decl.value.pos ((v.withField? field value).getD v))⟩

/-- Changing a declaration changes one entry of a table. -/
theorem SymbolTable.Numbered.update_eq {α : Type} {t : SymbolTable α} {n : Nat}
    (h : t.Numbered n) {before after : List (Entry α)} {f : Entry α}
    (ht : t.entries = before ++ f :: after) (g : α → α) :
    t.update f.id g = ⟨before ++ ⟨f.id, g f.decl⟩ :: after⟩ := by
  have hnodup := h.nodup
  rw [ht, List.map_append, List.map_cons, List.nodup_append, List.nodup_cons] at hnodup
  obtain ⟨_, ⟨hafter, _⟩, hapart⟩ := hnodup
  have hbefore : ((⟨before⟩ : SymbolTable α).update f.id g).entries = before :=
    SymbolTable.update_of_fresh _ _ _ fun x hx hid =>
      hapart x.id (List.mem_map_of_mem hx) f.id List.mem_cons_self hid
  have hafter : ((⟨after⟩ : SymbolTable α).update f.id g).entries = after :=
    SymbolTable.update_of_fresh _ _ _ fun x hx hid => hafter (List.mem_map.mpr ⟨x, hx, hid⟩)
  unfold SymbolTable.update at hbefore hafter ⊢
  rw [ht, List.map_append, List.map_cons, if_pos rfl]
  exact congrArg SymbolTable.mk (congr (congrArg _ hbefore) (congrArg _ hafter))

variable {u : State} {e f : Entry (Binding Expr)} {n : String}

/-- An assignment binds the first variable of a name anew, and nothing else changes. -/
theorem State.assignField_eq (hu : u.Numbered) (hf : u.tables.vars.lookup? n = some f)
    (hid : f.id = e.id) (v : Instance Expr) (field : String) (value : Expr) :
    ∃ before after, u.tables.vars.entries = before ++ f :: after ∧
      (∀ x ∈ before, x.decl.name ≠ n) ∧ f.decl.name = n ∧
      u.assignField e v field value = { u with tables := { u.tables with
        vars := ⟨before ++ f.assigned v field value :: after⟩ } } ∧
      (u.assignField e v field value).binding e = (f.assigned v field value).decl := by
  obtain ⟨_, before, after, hentries, hbefore⟩ := List.find?_eq_some_iff_append.mp hf
  have hget : u.tables.vars.get? e.id = some f.decl := by
    rw [← hid]
    exact hu.vars.get?_of_mem (SymbolTable.mem_of_lookup? hf)
  have hbinding : u.binding e = f.decl := by rw [binding, hget, Option.getD_some]
  refine ⟨before, after, hentries, fun x hx hname => ?_, SymbolTable.name_of_lookup? hf, ?_, ?_⟩
  · have hnot := hbefore x hx
    rw [show Named.name x.decl = n from hname, decide_eq_true rfl] at hnot
    cases hnot
  · rw [assignField, hbinding, rebind, ← hid, hu.vars.update_eq hentries]
    rfl
  · rw [binding_assignField (by rw [hget]; rfl), hbinding]
    rfl

end Exactly

section Loops

open Parse

variable {s t : State} {keyword : Token} {e : Expr}

/-- A loop is read while its counter is a variable, and holds it as it is at the end. -/
theorem Parse.forStatement_ok (hs : s.Numbered) (h : forStatement block keyword s = .ok e t) :
    ∃ (name : String) (start stop : Expr) (body : List Expr) (u x : State), u.Numbered ∧
      block false (u.openScope [⟨name, "i32", start⟩]) = .ok body x ∧
      t = x.closeScope (u.entriesFor [⟨name, "i32", start⟩]) ∧
      e = .forLoop keyword.pos (x.binding ⟨u.nextId, ⟨name, "i32", start⟩⟩)
        (.range start.pos start stop) body := by
  obtain ⟨name, s₁, hname, h⟩ := bind_eq_ok_iff.mp h
  obtain ⟨inWord, s₂, hin, h⟩ := bind_eq_ok_iff.mp h
  obtain ⟨start, s₃, hstart, h⟩ := bind_eq_ok_iff.mp h
  obtain ⟨dots, s₄, hdots, h⟩ := bind_eq_ok_iff.mp h
  obtain ⟨stop, u, hstop, h⟩ := bind_eq_ok_iff.mp h
  have ok {α : Type} {p : Parse α} (hp : declarationLaw.Relates p p) {s t : State} {a : α}
      (hpa : p s = .ok a t) (hs : s.Numbered) : t.Numbered := (hp.ok trivial hpa hs).numbered
  have hu : u.Numbered :=
    ok StepLaw.relates_expr hstop (ok (StepLaw.relates_expect rfl) hdots
      (ok StepLaw.relates_expr hstart (ok (StepLaw.relates_expect rfl) hin
        (ok (StepLaw.relates_expect rfl) hname hs))))
  unfold withVariables at h
  simp only at h
  split at h
  · rename_i e' x hbody
    injection h with he ht
    subst he ht
    obtain ⟨body, y, hblock, hbody⟩ := bind_eq_ok_iff.mp hbody
    obtain ⟨counter, z, hcounter, hbody⟩ := bind_eq_ok_iff.mp hbody
    injection hcounter with hcounter hyz
    injection hbody with he hx
    subst hcounter hyz hx
    exact ⟨name.lexeme, start, stop, body, u, _, hu, hblock, rfl, he.symm⟩
  · cases h

/-- The counter of a loop holds its start, unless a field of it is assigned in the body. -/
theorem Parse.counter_of_block {name : String} {start : Expr} {body : List Expr}
    (hs : s.Numbered) (h : block false (s.openScope [⟨name, "i32", start⟩]) = .ok body t) :
    ∃ value, t.binding ⟨s.nextId, ⟨name, "i32", start⟩⟩ = ⟨name, "i32", value⟩ ∧
      (value = start ∨
        ((s.openScope [⟨name, "i32", start⟩]).tables.vars.lookup? name =
            some ⟨s.nextId, ⟨name, "i32", start⟩⟩ ∧
          (s.openScope [⟨name, "i32", start⟩]).AssignsIn t name)) := by
  have hopen := (State.Extends.openScope hs [⟨name, "i32", start⟩]).numbered
  have hblock := recounts_block (s := s.openScope [⟨name, "i32", start⟩]) false
  rw [h] at hblock
  obtain ⟨log, hlog, _⟩ := hblock hopen
  have hcounter : (⟨s.nextId, ⟨name, "i32", start⟩⟩ : Entry (Binding Expr)) ∈
      (s.openScope [⟨name, "i32", start⟩]).tables.vars.entries := by
    rw [State.entries_openScope]
    exact List.mem_append_right _ List.mem_cons_self
  obtain ⟨f, hf, hid, _, hget⟩ := (hlog.grows hopen).keeps.exists_entry hcounter
  obtain ⟨htag, hsame⟩ := hlog.spares hopen _ hcounter f hf hid
  have hname : f.decl.name = name := congrArg (fun tag => tag.2.name) htag
  have htype : f.decl.typeName = "i32" := congrArg (fun tag => tag.2.typeName) htag
  refine ⟨f.decl.value, ?_, hsame.imp_left fun h => congrArg (fun e => e.decl.value) h⟩
  calc t.binding ⟨s.nextId, ⟨name, "i32", start⟩⟩
    _ = ⟨f.decl.name, f.decl.typeName, f.decl.value⟩ := by rw [State.binding, hget]; rfl
    _ = ⟨name, "i32", f.decl.value⟩ := by rw [hname, htype]

end Loops

open Parse

/--
A statement leaves every variable in its place and keeps its name and type.  It keeps its value,
too, unless a field of a variable of that name is assigned in the statement and the name stands for
that variable; if no field is assigned, all variables are the same.

An assignment `p.f = value` whose value can be read binds the first variable that is called `p` anew
when its value has been read, and changes nothing else: no other variable, whatever instances it
shares with this one, and nothing that has been read before, at the top level or in a block.

A loop holds its counter as it is at the end of the body.  This is the start of the range, unless a
field of the counter is assigned in the body.
-/
theorem field_assignment_spares {s : State} (hs : Reached s) :
    (∃ ts, s.Reads ts (statement s).2 ∧
      (∀ (i : Nat) (e : Entry (Binding Expr)), s.tables.vars.entries[i]? = some e →
        ∃ f, (statement s).2.tables.vars.entries[i]? = some f ∧ f.tag = e.tag ∧
          (f = e ∨ (s.tables.vars.lookup? e.decl.name = some e ∧ AssignsField ts e.decl.name))) ∧
      ((∀ n, ¬ AssignsField ts n) →
        s.tables.vars.entries <+: (statement s).2.tables.vars.entries)) ∧
    (∀ name field e v b t value u, s.ReadsTarget name field e v b t → expr t = .ok value u →
      ∃ before f after w assignment, u.tables.vars.entries = before ++ f :: after ∧
        (∀ x ∈ before, x.decl.name ≠ name.lexeme) ∧ f.decl.name = name.lexeme ∧
        w = { u with tables := { u.tables with
          vars := ⟨before ++ f.assigned v field.lexeme value :: after⟩ } } ∧
        assignment =
          .fieldAssign name.pos (f.assigned v field.lexeme value).decl (b.rebind value) value ∧
        expr s = .ok assignment w ∧ statement s = (some assignment, w) ∧
        (∀ es, Session.finish ⟨es, s⟩ = Session.finish ⟨es ++ [assignment], w⟩) ∧
        (w.closedBlocks = 0 → ∀ ofProc,
          body ofProc s = (do return assignment :: (← body ofProc)) w)) ∧
    ∀ keyword loop t, forStatement block keyword s = .ok loop t →
      ∃ (u x : State) (name : String) (start stop value : Expr) (es : List Expr),
        let counter : Binding Expr := ⟨name, "i32", start⟩
        block false (u.openScope [counter]) = .ok es x ∧ t = x.closeScope (u.entriesFor [counter]) ∧
        loop = .forLoop keyword.pos (counter.rebind value) (.range start.pos start stop) es ∧
        (value = start ∨
          ((u.openScope [counter]).tables.vars.lookup? name = some ⟨u.nextId, counter⟩ ∧
            ∃ ts, (u.openScope [counter]).Reads ts x ∧ AssignsField ts name)) := by
  have hnumbered := hs.sound.numbered
  refine ⟨?_, ?_, ?_⟩
  · obtain ⟨log, hlog, _⟩ := declares_statement hnumbered
    obtain ⟨ts, hts⟩ := hlog.later.reads
    refine ⟨ts, hts, fun i e he => ?_, fun hnone => hlog.vars_prefix hnumbered fun n h => ?_⟩
    · obtain ⟨f, hf, htag, hsame⟩ := hlog.getElem?_vars hnumbered he
      exact ⟨f, hf, htag, hsame.imp_right fun h => ⟨h.1, (State.assignsIn_iff hts).mp h.2⟩⟩
    · exact hnone n ((State.assignsIn_iff hts).mp h)
  · intro name field e v b t value u htarget hvalue
    have ht := htarget.numbered hnumbered
    obtain ⟨ds, hcourse⟩ := course_of_expr htarget.awaits hvalue
    have hlookup : t.tables.vars.lookup? name.lexeme = some e := by
      rw [htarget.tables_eq]
      exact htarget.lookup
    obtain ⟨f, hf, hkept⟩ := (hcourse.changes ht).exists_lookup hlookup
    obtain ⟨before, after, hentries, hbefore, hname, hw, hbinding⟩ := State.assignField_eq
      ((hcourse.changes ht).numbered ht) hf hkept.id v field.lexeme value
    have hexpr := expr_of_target htarget hvalue
    have hstatement := statement_of_target htarget hvalue
    rw [hbinding] at hexpr hstatement
    obtain ⟨point, eq, rest, hunread, _⟩ := htarget.tokens
    refine ⟨before, f, after, _, _, hentries, hbefore, hname, hw, rfl, hexpr, hstatement,
      fun es => ?_, fun hzero ofProc => ?_⟩
    · rw [Session.finish_of_cons hunread, hstatement]
      rfl
    · have hopen : name.kind ≠ .rightBrace := by
        rw [htarget.name_kind]
        decide
      rw [body_of_open ofProc hunread hopen (by rw [hstatement]; exact hzero), hstatement]
      cases ofProc <;> rfl
  · intro keyword loop t h
    obtain ⟨name, start, stop, es, u, x, hu, hblock, ht, rfl⟩ := forStatement_ok hnumbered h
    obtain ⟨value, hcounter, hvalue⟩ := counter_of_block hu hblock
    exact ⟨u, x, name, start, stop, value, es, hblock, ht, by rw [hcounter]; rfl, hvalue⟩

/-- A field of a copy is assigned, and the variable that was copied stays as it is. -/
theorem field_assignment_spares_copied :
    ∃ (s w : State) (p q : Entry (Binding Expr)) (v : Instance Expr) (e : Expr), Reached s ∧
      s.tables.vars.entries = [p, q] ∧ p.decl.name = "p" ∧ q.decl.name = "q" ∧
      q.decl.value.instance? = some v ∧ statement s = (some e, w) ∧
      ∃ value, w.tables.vars.entries = [p, q.assigned v "a" value] := by
  let s₀ := State.ofSource "p"
    "struct P { a: i32 } let p = P { a: 1 } let q = p q.a = 5".toList
  let s₁ := (statement s₀).2
  let s₂ := (statement s₁).2
  let s := (statement s₂).2
  let name : Token := ⟨.identifier, "q", ⟨"p", 0, 49⟩, .none⟩
  let point : Token := ⟨.dot, ".", ⟨"p", 0, 50⟩, .none⟩
  let field : Token := ⟨.identifier, "a", ⟨"p", 0, 51⟩, .none⟩
  let eq : Token := ⟨.assign, "=", ⟨"p", 0, 53⟩, .none⟩
  let five : Token := ⟨.literal, "5", ⟨"p", 0, 55⟩, .number⟩
  have hs₁ : Reached s₁ := .statement (.start _ _) (by decide +kernel)
  have hs₂ : Reached s₂ := .statement hs₁ (by decide +kernel)
  have hs : Reached s := .statement hs₂ (by decide +kernel)
  have hunread : s.unread = [name, point, field, eq, five] := by decide +kernel
  obtain ⟨p, q, hentries⟩ : ∃ p q, s.tables.vars.entries = [p, q] :=
    List.length_eq_two.mp (by decide +kernel)
  have hnames : s.tables.vars.entries.map (fun e => e.decl.name) = ["p", "q"] := by
    decide +kernel
  have hfield : (s.tables.vars.lookup? "q").bind (fun e => e.decl.value.instance?.bind
      fun v => (v.field? "a").map Binding.name) = some "a" := by decide +kernel
  rw [hentries, List.map_cons, List.map_cons, List.map_nil, List.cons.injEq, List.cons.injEq]
    at hnames
  obtain ⟨hp, hq, _⟩ := hnames
  obtain ⟨e, he, hb⟩ := Option.bind_eq_some_iff.mp hfield
  obtain ⟨v, hv, hb⟩ := Option.bind_eq_some_iff.mp hb
  obtain ⟨b, hb, _⟩ := Option.map_eq_some_iff.mp hb
  have htarget : s.ReadsTarget name field e v b (s.consumeAll [name, point, field, eq] [five]) :=
    ⟨⟨point, eq, [five], hunread, rfl, rfl, rfl⟩, rfl, rfl, he, hv, hb⟩
  have hvalue := (expr_of_literal (s := s.consumeAll [name, point, field, eq] [five]) rfl
    rfl).trans (foldOperators_of_stop _ nofun)
  obtain ⟨_, hassigned, _⟩ := field_assignment_spares hs
  obtain ⟨before, f, after, w, x, hsplit, hbefore, hname, hw, _, _, hstatement, _⟩ :=
    hassigned _ _ _ _ _ _ _ _ htarget hvalue
  have hsplit : [p, q] = before ++ f :: after := hentries.symm.trans hsplit
  have heq : e = q := by
    have hmem := SymbolTable.mem_of_lookup? he
    rw [hentries] at hmem
    rcases List.mem_pair.mp hmem with rfl | h
    · exact absurd (hp.symm.trans (SymbolTable.name_of_lookup? he)) (by decide)
    · exact h
  -- Of the two variables, only the second one has the name.
  obtain ⟨rfl, rfl, rfl⟩ : before = [p] ∧ f = q ∧ after = [] := by
    match before with
    | [] =>
      obtain ⟨rfl, _⟩ := List.cons.inj hsplit
      exact absurd (hp.symm.trans hname) (by decide)
    | [_] => simp_all
    | _ :: _ :: _ => simp at hsplit
  exact ⟨s, w, p, f, v, x, hs, hentries, hp, hq, heq ▸ hv, hstatement, _, by rw [hw]; rfl⟩

end ScriptFront
