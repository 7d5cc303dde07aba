import ScriptFront.Proofs.Reading.Grammar
import Mathlib.Data.List.Nodup

/-!
# What reading does to the tables

Every entry of a table has an identity of its own, and new entries get identities that were not used
before.  Reading only appends to the tables, except that the variables of a scope are taken out
again when it ends.  The value of a variable may change, its name does not.

**Results.**

* `State.Extends`: what one step does to the tables, and `declarationLaw`, the law of it.
* `State.Extends.currentBinding_name`: a variable keeps its name.
-/

namespace ScriptFront

namespace SymbolTable

variable {α : Type}

/-- The entries have different identities, all below `n`. -/
structure Numbered (t : SymbolTable α) (n : Nat) : Prop where
  nodup : (t.entries.map Entry.id).Nodup
  lt : ∀ e ∈ t.entries, e.id < n

namespace Numbered

theorem empty (n : Nat) : ({} : SymbolTable α).Numbered n :=
  ⟨List.nodup_nil, nofun⟩

theorem mono {t : SymbolTable α} {n m : Nat} (h : t.Numbered n) (hnm : n ≤ m) : t.Numbered m :=
  ⟨h.nodup, fun e he => Nat.lt_of_lt_of_le (h.lt e he) hnm⟩

/-- New entries with the next identities. -/
theorem append {t u : SymbolTable α} {n m : Nat} {es : List (Entry α)} (h : t.Numbered n)
    (hu : u.entries = t.entries ++ es) (hnodup : (es.map Entry.id).Nodup)
    (hes : ∀ e ∈ es, n ≤ e.id ∧ e.id < m) (hnm : n ≤ m) : u.Numbered m where
  nodup := by
    rw [hu, List.map_append]
    refine h.nodup.append hnodup ?_
    intro i hi hi'
    obtain ⟨x, hx, rfl⟩ := List.mem_map.mp hi
    obtain ⟨e, he, hid⟩ := List.mem_map.mp hi'
    have hlt := h.lt x hx
    have hle := (hes e he).1
    omega
  lt := by
    intro e he
    rw [hu, List.mem_append] at he
    rcases he with he | he
    · exact Nat.lt_of_lt_of_le (h.lt e he) hnm
    · exact (hes e he).2

theorem of_sublist {t u : SymbolTable α} {n : Nat} (h : t.Numbered n)
    (hu : (u.entries.map Entry.id).Sublist (t.entries.map Entry.id)) : u.Numbered n where
  nodup := h.nodup.sublist hu
  lt := by
    intro e he
    obtain ⟨x, hx, hid⟩ := List.mem_map.mp (hu.subset (List.mem_map_of_mem he))
    rw [← hid]
    exact h.lt x hx

/-- An identity belongs to one entry. -/
theorem eq_of_id {t : SymbolTable α} {n : Nat} (h : t.Numbered n) {e f : Entry α}
    (he : e ∈ t.entries) (hf : f ∈ t.entries) (hid : e.id = f.id) : e = f :=
  List.inj_on_of_nodup_map h.nodup he hf hid

theorem get?_of_mem {t : SymbolTable α} {n : Nat} (h : t.Numbered n) {e : Entry α}
    (he : e ∈ t.entries) : t.get? e.id = some e.decl := by
  unfold get?
  cases hfind : t.entries.find? fun f => f.id == e.id with
  | none =>
    have hnone := List.find?_eq_none.mp hfind e he
    simp at hnone
  | some f =>
    have hid : f.id = e.id := by simpa using List.find?_some hfind
    obtain rfl := h.eq_of_id (List.mem_of_find?_eq_some hfind) he hid
    rfl

end Numbered

theorem map_update {β : Type} (t : SymbolTable α) (id : Nat) (f : α → α) (key : Entry α → β)
    (h : ∀ e ∈ t.entries, e.id = id → key { e with decl := f e.decl } = key e) :
    (t.update id f).entries.map key = t.entries.map key := by
  unfold update
  rw [List.map_map]
  refine List.map_congr_left fun e he => ?_
  by_cases hid : e.id = id
  · simp only [Function.comp, if_pos hid]
    exact h e he hid
  · simp only [Function.comp, if_neg hid]

/-- A change in its place changes what is found by its identity. -/
theorem get?_update_eq (t : SymbolTable α) (id other : Nat) (f : α → α) :
    (t.update id f).get? other = (t.get? other).map fun d => if other = id then f d else d := by
  unfold get? update
  rw [List.find?_map]
  have hsame : ((fun e : Entry α => e.id == other) ∘ fun e =>
      if e.id = id then { e with decl := f e.decl } else e) = fun e => e.id == other := by
    funext e
    simp only [Function.comp]
    split <;> rfl
  rw [hsame]
  cases hfind : t.entries.find? fun e => e.id == other with
  | none => rfl
  | some e =>
    have hid : e.id = other := by simpa using List.find?_some hfind
    by_cases hother : other = id
    · simp [hid, hother]
    · simp [hid, hother]

theorem get?_update (t : SymbolTable α) (id : Nat) (f : α → α) :
    (t.update id f).get? id = (t.get? id).map f := by
  simp only [get?_update_eq, if_true]

theorem update_of_fresh (t : SymbolTable α) (id : Nat) (f : α → α)
    (h : ∀ e ∈ t.entries, e.id ≠ id) : (t.update id f).entries = t.entries := by
  unfold update
  refine (List.map_congr_left fun e he => ?_).trans (List.map_id _)
  rw [if_neg (h e he)]
  rfl

end SymbolTable

namespace State

/-- The identities and names of the variables. -/
def varKeys (s : State) : List (Nat × String) :=
  s.tables.vars.entries.map fun e => (e.id, e.decl.name)

/-- No identity of a variable or an impl block has been given twice. -/
structure Numbered (s : State) : Prop where
  vars : s.tables.vars.Numbered s.nextId
  impls : s.tables.impls.Numbered s.nextId

/-- Entries with new identities have been appended to the tables. -/
structure Extends (s t : State) : Prop where
  numbered : t.Numbered
  nextId : s.nextId ≤ t.nextId
  vars : ∃ new, t.varKeys = s.varKeys ++ new ∧ ∀ key ∈ new, s.nextId ≤ key.1
  impls : ∃ new, t.tables.impls.entries = s.tables.impls.entries ++ new ∧
    ∀ e ∈ new, s.nextId ≤ e.id

theorem map_fst_varKeys (s : State) :
    s.varKeys.map Prod.fst = s.tables.vars.entries.map Entry.id := by
  simp [varKeys, Function.comp_def]

theorem impls_addProc (s : State) (e : Entry (Impl Expr)) (p : Proc Expr) :
    (s.addProc e p).tables.impls =
      s.tables.impls.update e.id fun block => { block with procs := block.procs ++ [p] } :=
  rfl

namespace Numbered

variable {s : State} (h : s.Numbered)
include h

theorem closeScope (entries : List (Entry (Binding Expr))) : (s.closeScope entries).Numbered :=
  ⟨h.vars.of_sublist ((SymbolTable.entries_eraseAll_sublist _ entries).map _), h.impls⟩

theorem addProc (e : Entry (Impl Expr)) (p : Proc Expr) : (s.addProc e p).Numbered := by
  refine ⟨h.vars, h.impls.of_sublist ?_⟩
  rw [impls_addProc, SymbolTable.map_update _ _ _ _ fun _ _ _ => rfl]

end Numbered

/-- The variables have the same identities and names. -/
theorem numbered_vars_of_keys {s t : State} {n : Nat} (h : s.tables.vars.Numbered n)
    (hkeys : t.varKeys = s.varKeys) : t.tables.vars.Numbered n := by
  refine h.of_sublist ?_
  rw [← map_fst_varKeys, ← map_fst_varKeys, hkeys]

namespace Extends

theorem refl {s : State} (h : s.Numbered) : s.Extends s :=
  ⟨h, Nat.le_refl _, ⟨[], by simp, by simp⟩, ⟨[], by simp, by simp⟩⟩

theorem trans {s t u : State} (hst : s.Extends t) (htu : t.Extends u) : s.Extends u := by
  obtain ⟨vs, hvars, hvs⟩ := hst.vars
  obtain ⟨vs', hvars', hvs'⟩ := htu.vars
  obtain ⟨is, himpls, his⟩ := hst.impls
  obtain ⟨is', himpls', his'⟩ := htu.impls
  have hle := hst.nextId
  refine ⟨htu.numbered, Nat.le_trans hle htu.nextId, ⟨vs ++ vs', ?_, ?_⟩, ⟨is ++ is', ?_, ?_⟩⟩
  · rw [hvars', hvars, List.append_assoc]
  · intro key hkey
    rcases List.mem_append.mp hkey with hkey | hkey
    · exact hvs key hkey
    · exact Nat.le_trans hle (hvs' key hkey)
  · rw [himpls', himpls, List.append_assoc]
  · intro e he
    rcases List.mem_append.mp he with he | he
    · exact his e he
    · exact Nat.le_trans hle (his' e he)

/-- A step that leaves the tables alone. -/
theorem of_same {s t : State} (h : s.Numbered) (htables : t.tables = s.tables)
    (hid : t.nextId = s.nextId) : s.Extends t := by
  refine ⟨⟨?_, ?_⟩, Nat.le_of_eq hid.symm, ⟨[], ?_, by simp⟩, ⟨[], ?_, by simp⟩⟩
  · rw [htables, hid]
    exact h.vars
  · rw [htables, hid]
    exact h.impls
  · rw [List.append_nil, varKeys, varKeys, htables]
  · rw [List.append_nil, htables]

theorem consume {s : State} (h : s.Numbered) (t : Token) (rest : List Token) :
    s.Extends (s.consume t rest) :=
  .of_same h rfl rfl

theorem complete {s : State} (h : s.Numbered) :
    s.Extends { s with completed := s.completed + 1 } :=
  .of_same h rfl rfl

theorem report {s : State} (h : s.Numbered) (p : Problem) : s.Extends (s.report p) := by
  unfold State.report
  split
  · exact .refl h
  · exact .of_same h rfl rfl

theorem declare {s : State} (h : s.Numbered) (symbol : Symbol) (hid : symbol.id = s.nextId) :
    s.Extends { s with nextId := s.nextId + 1, tables := s.tables.declare symbol } := by
  have hvars := h.vars.mono (Nat.le_succ s.nextId)
  have himpls := h.impls.mono (Nat.le_succ s.nextId)
  cases symbol with
  | «variable» e =>
    have hlast : e.id = s.nextId := hid
    refine ⟨⟨?_, himpls⟩, Nat.le_succ _, ⟨[(e.id, e.decl.name)], ?_, ?_⟩, ⟨[], ?_, by simp⟩⟩
    · refine h.vars.append (u := s.tables.vars.declare e) rfl (by simp) ?_ (Nat.le_succ _)
      simp [hlast]
    · simp [varKeys, Tables.declare]
    · simp [hlast]
    · rw [List.append_nil]
      rfl
  | procedure e | struct e =>
    refine ⟨⟨hvars, himpls⟩, Nat.le_succ _, ⟨[], ?_, by simp⟩, ⟨[], ?_, by simp⟩⟩
    · rw [List.append_nil]
      rfl
    · rw [List.append_nil]
      rfl
  | impl e =>
    have hlast : e.id = s.nextId := hid
    refine ⟨⟨hvars, ?_⟩, Nat.le_succ _, ⟨[], ?_, by simp⟩, ⟨[e], rfl, ?_⟩⟩
    · refine h.impls.append (u := s.tables.impls.declare e) rfl (by simp) ?_ (Nat.le_succ _)
      simp [hlast]
    · rw [List.append_nil]
      rfl
    · simp [hlast]

theorem varKeys_rebind (s : State) (e : Entry (Binding Expr)) (value : Expr) :
    (s.rebind e value).varKeys = s.varKeys :=
  s.tables.vars.map_update e.id (·.rebind value) (fun e => (e.id, e.decl.name)) fun _ _ _ => rfl

theorem rebind {s : State} (h : s.Numbered) (e : Entry (Binding Expr)) (value : Expr) :
    s.Extends (s.rebind e value) := by
  have hkeys := varKeys_rebind s e value
  refine ⟨⟨numbered_vars_of_keys h.vars hkeys, h.impls⟩, Nat.le_refl _,
    ⟨[], ?_, by simp⟩, ⟨[], ?_, by simp⟩⟩
  · rw [List.append_nil, hkeys]
  · rw [List.append_nil]
    rfl

/-- An impl block that was declared by the step may grow. -/
theorem addProc {s t : State} (hst : s.Extends t) {e : Entry (Impl Expr)} (p : Proc Expr)
    (hid : s.nextId ≤ e.id) (hs : s.Numbered) : s.Extends (t.addProc e p) := by
  obtain ⟨new, himpls, hnew⟩ := hst.impls
  have hids : (t.addProc e p).tables.impls.entries.map Entry.id =
      t.tables.impls.entries.map Entry.id := by
    rw [impls_addProc]
    exact t.tables.impls.map_update e.id _ Entry.id fun _ _ _ => rfl
  have hsplit : (t.addProc e p).tables.impls.entries = s.tables.impls.entries ++
      ((⟨new⟩ : SymbolTable (Impl Expr)).update e.id fun block =>
        { block with procs := block.procs ++ [p] }).entries := by
    have hold := s.tables.impls.update_of_fresh e.id
      (fun block => { block with procs := block.procs ++ [p] }) fun x hx hxid => by
        have hlt := hs.impls.lt x hx
        omega
    simp only [SymbolTable.update] at hold ⊢
    simp only [State.addProc, SymbolTable.update, himpls, List.map_append]
    rw [hold]
  refine ⟨⟨hst.numbered.vars, ?_⟩, hst.nextId, hst.vars, ⟨_, hsplit, ?_⟩⟩
  · exact hst.numbered.impls.of_sublist (by rw [hids])
  · intro x hx
    simp only [SymbolTable.update, List.mem_map] at hx
    obtain ⟨y, hy, rfl⟩ := hx
    have hle := hnew y hy
    split <;> exact hle

end Extends

section Scopes

theorem mem_entriesFor {α : Type} {s : State} {decls : List α} {e : Entry α}
    (h : e ∈ s.entriesFor decls) : s.nextId ≤ e.id ∧ e.id < s.nextId + decls.length := by
  unfold entriesFor at h
  obtain ⟨⟨decl, i⟩, hmem, rfl⟩ := List.mem_map.mp h
  have hi := List.snd_lt_of_mem_zipIdx hmem
  simp only at hi ⊢
  omega

theorem nodup_entriesFor {α : Type} (s : State) (decls : List α) :
    ((s.entriesFor decls).map Entry.id).Nodup := by
  have hids : (s.entriesFor decls).map Entry.id =
      (List.range decls.length).map (s.nextId + ·) := by
    rw [List.range_eq_range', ← List.zipIdx_map_snd, List.map_map]
    unfold entriesFor
    rw [List.map_map]
    rfl
  rw [hids]
  exact List.nodup_range.map fun i j hij => Nat.add_left_cancel hij

theorem map_decl_entriesFor {α : Type} (s : State) (decls : List α) :
    (s.entriesFor decls).map Entry.decl = decls := by
  unfold entriesFor
  rw [List.map_map]
  exact List.zipIdx_map_fst 0 decls

theorem length_entriesFor {α : Type} (s : State) (decls : List α) :
    (s.entriesFor decls).length = decls.length := by
  unfold entriesFor
  rw [List.length_map, List.length_zipIdx]

theorem entries_openScope (s : State) (bindings : List (Binding Expr)) :
    (s.openScope bindings).tables.vars.entries =
      s.tables.vars.entries ++ s.entriesFor bindings :=
  SymbolTable.entries_declareAll _ _

theorem Extends.openScope {s : State} (h : s.Numbered) (bindings : List (Binding Expr)) :
    s.Extends (s.openScope bindings) := by
  have hentries := entries_openScope s bindings
  have hle := Nat.le_add_right s.nextId bindings.length
  refine ⟨⟨?_, h.impls.mono hle⟩, hle,
    ⟨(s.entriesFor bindings).map fun e => (e.id, e.decl.name), ?_, ?_⟩, ⟨[], ?_, by simp⟩⟩
  · exact h.vars.append hentries (nodup_entriesFor s bindings) (fun e he => mem_entriesFor he) hle
  · rw [varKeys, hentries, List.map_append]
    rfl
  · intro key hkey
    obtain ⟨e, he, rfl⟩ := List.mem_map.mp hkey
    exact (mem_entriesFor he).1
  · rw [List.append_nil]
    rfl

/-- The end of a scope takes out its variables and leaves those that were declared inside of it. -/
theorem entries_closeScope {s t : State} {bindings : List (Binding Expr)} (h : s.Numbered)
    (hst : (s.openScope bindings).Extends t) :
    (t.closeScope (s.entriesFor bindings)).tables.vars.entries =
      t.tables.vars.entries.take s.tables.vars.entries.length ++
        t.tables.vars.entries.drop (s.tables.vars.entries.length + bindings.length) := by
  obtain ⟨keys, hkeys, _⟩ := hst.vars
  unfold varKeys at hkeys
  rw [entries_openScope, List.map_append] at hkeys
  obtain ⟨front, new, hentries, hfront, _⟩ := List.map_eq_append_iff.mp hkeys
  obtain ⟨old, own, rfl, hold, hown⟩ := List.map_eq_append_iff.mp hfront
  have hids : own.map Entry.id = (s.entriesFor bindings).map Entry.id := by
    have hfst := congrArg (List.map Prod.fst) hown
    rw [List.map_map, List.map_map] at hfst
    exact hfst
  have hclosed : (t.closeScope (s.entriesFor bindings)).tables.vars.entries = old ++ new := by
    refine SymbolTable.entries_eraseAll_between hentries hids fun x hx e he => ?_
    have hkey : (x.id, x.decl.name) ∈ old.map fun e => (e.id, e.decl.name) :=
      List.mem_map_of_mem hx
    rw [hold] at hkey
    obtain ⟨y, hy, hxy⟩ := List.mem_map.mp hkey
    have hlt := h.vars.lt y hy
    have hle := (mem_entriesFor he).1
    have hid : y.id = x.id := congrArg Prod.fst hxy
    omega
  have hlength : old.length = s.tables.vars.entries.length := by
    have hlength := congrArg List.length hold
    rw [List.length_map, List.length_map] at hlength
    exact hlength
  have hlength' : own.length = bindings.length := by
    have hlength' := congrArg List.length hids
    rw [List.length_map, List.length_map, length_entriesFor] at hlength'
    exact hlength'
  rw [hclosed, hentries, ← hlength, ← hlength', List.append_assoc, List.take_left,
    ← List.append_assoc, ← List.length_append, List.drop_left]

/-- Behind a scope the variables look as before it, with what was declared inside of it. -/
theorem map_entries_closeScope {β : Type} {f : Entry (Binding Expr) → β} {new : List β}
    {s t : State} {bindings : List (Binding Expr)} (h : s.Numbered)
    (hst : (s.openScope bindings).Extends t)
    (hmap : t.tables.vars.entries.map f =
      (s.openScope bindings).tables.vars.entries.map f ++ new) :
    (t.closeScope (s.entriesFor bindings)).tables.vars.entries.map f =
      s.tables.vars.entries.map f ++ new := by
  have hlength : ((s.openScope bindings).tables.vars.entries.map f).length =
      s.tables.vars.entries.length + bindings.length := by
    rw [entries_openScope, List.length_map, List.length_append, length_entriesFor]
  have hold : (s.tables.vars.entries.map f).length = s.tables.vars.entries.length :=
    List.length_map _
  rw [entries_closeScope h hst, List.map_append, List.map_take, List.map_drop, hmap, ← hlength,
    List.drop_left, entries_openScope, List.map_append, List.append_assoc, ← hold, List.take_left]

theorem Extends.scope {s t : State} {bindings : List (Binding Expr)} (h : s.Numbered)
    (hst : (s.openScope bindings).Extends t) :
    s.Extends (t.closeScope (s.entriesFor bindings)) := by
  obtain ⟨new, hkeys, hnew⟩ := hst.vars
  have hopen : s.nextId ≤ (s.openScope bindings).nextId := Nat.le_add_right _ bindings.length
  obtain ⟨is, himpls, his⟩ := hst.impls
  exact ⟨hst.numbered.closeScope _, Nat.le_trans hopen hst.nextId,
    ⟨new, map_entries_closeScope h hst hkeys, fun key hkey => Nat.le_trans hopen (hnew key hkey)⟩,
    ⟨is, himpls, fun e he => Nat.le_trans hopen (his e he)⟩⟩

end Scopes
end State

/-- Reading appends entries with new identities. -/
def declarationLaw : StepLaw where
  good _ := True
  ok s t := s.Numbered → s.Extends t
  err _ s t := s.Numbered → s.Extends t
  refl _ := .refl
  trans hst htu hs := (hst hs).trans (htu (hst hs).numbered)
  err_of_ok h := h
  ok_err hst htu hs := (hst hs).trans (htu (hst hs).numbered)
  good_of_ok _ _ := trivial
  good_consume _ _ := trivial
  good_openScope _ _ := trivial
  read _ _ _ hs := .consume hs _ _
  stop _ _ hs := .consume hs _ _
  enclose {s _ opening _ rest _} _ _ hu _ _ hs := by
    have hinside := State.Extends.consume hs opening rest
    have hbody := hinside.trans (hu hinside.numbered)
    exact hbody.trans (.consume hbody.numbered _ _)
  enclose_err {_ _ _ opening rest} _ _ hu hs := by
    have hinside := State.Extends.consume hs opening rest
    exact hinside.trans (hu hinside.numbered)
  report _ p hs := .report hs p
  declare _ symbol hid hs := .declare hs symbol hid
  rebind _ e value hs := .rebind hs e value
  addProc p h hid hs := (h hs).addProc p hid hs
  complete _ hs := .complete hs
  scope h hs := .scope hs (h (State.Extends.openScope hs _).numbered)
  scope_err h hs := .scope hs (h (State.Extends.openScope hs _).numbered)

theorem declarationLaw_loose : declarationLaw.Loose where
  consumeAll _ hs := .of_same hs rfl rfl
  recover {_ _ p} depth h hs := by
    have ht := h hs
    refine ht.trans ((State.Extends.report ht.numbered p).trans ?_)
    unfold State.recover
    simp only
    split
    · exact .of_same (State.Extends.report ht.numbered p).numbered rfl rfl
    · exact .of_same (State.Extends.report ht.numbered p).numbered rfl rfl
  leave _ hs := .of_same hs rfl rfl

namespace State.Extends

/-- A variable stays in its table, under its identity and name. -/
theorem exists_entry {s t : State} {e : Entry (Binding Expr)} (hst : s.Extends t)
    (he : e ∈ s.tables.vars.entries) :
    ∃ f ∈ t.tables.vars.entries, f.id = e.id ∧ f.decl.name = e.decl.name ∧
      t.tables.vars.get? e.id = some f.decl := by
  obtain ⟨new, hkeys, _⟩ := hst.vars
  have hmem : (e.id, e.decl.name) ∈ t.varKeys := by
    rw [hkeys]
    exact List.mem_append_left _ (List.mem_map_of_mem he)
  obtain ⟨f, hf, hkey⟩ := List.mem_map.mp hmem
  have hid : f.id = e.id := congrArg Prod.fst hkey
  refine ⟨f, hf, hid, congrArg Prod.snd hkey, ?_⟩
  rw [← hid]
  exact hst.numbered.vars.get?_of_mem hf

/-- A variable keeps its name. -/
theorem currentBinding_name {s t u : State} {e : Entry (Binding Expr)} {b : Binding Expr}
    (hst : s.Extends t) (he : e ∈ s.tables.vars.entries)
    (h : Parse.currentBinding e t = .ok b u) : b.name = e.decl.name := by
  obtain ⟨f, _, _, hname, hget⟩ := hst.exists_entry he
  simp only [Parse.currentBinding, hget, Option.getD_some, EStateM.Result.ok.injEq] at h
  rw [← h.1, hname]

/-- An impl block that has been declared stays as it is. -/
theorem impl_get? {s t : State} {id : Nat} {block : Impl Expr} (hst : s.Extends t)
    (h : s.tables.impls.get? id = some block) : t.tables.impls.get? id = some block := by
  obtain ⟨new, himpls, _⟩ := hst.impls
  unfold SymbolTable.get? at h ⊢
  obtain ⟨e, he, rfl⟩ := Option.map_eq_some_iff.mp h
  rw [himpls, List.find?_append, he]
  rfl

end State.Extends
end ScriptFront
