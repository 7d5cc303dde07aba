import ScriptFront.Proofs.Tables.Readers

/-!
# The tables and the program agree

What is found in a program has been declared, and the tables have it in the order of the program.
If nothing but advice has been reported, then no statement has failed, and the tables have nothing
else.

**Results.**

* `parseProgram_tables`: the tables list the declarations of the program.
-/

namespace ScriptFront

/-- For each sort of declaration, the declarations in a list and those in its table are related. -/
structure Tables.Compares (t : Tables) (R : ∀ {α : Type}, List α → List α → Prop)
    (ds : List Declaration) : Prop where
  vars : R (ds.filterMap Declaration.var?) (t.vars.entries.map fun e => e.decl.typed)
  procedures : R (ds.filterMap Declaration.proc?) (t.procedures.entries.map Entry.decl)
  structs : R (ds.filterMap Declaration.struct?) (t.structs.entries.map Entry.decl)
  impls : R (ds.filterMap Declaration.impl?) t.impls.entries

/-- Some of the declarations that the tables list. -/
theorem Tables.Compares.of_sublist {t : Tables} {ds ds' : List Declaration}
    (h : t.Compares Eq ds') (hds : ds.Sublist ds') : t.Compares List.Sublist ds where
  vars := h.vars ▸ hds.filterMap _
  procedures := h.procedures ▸ hds.filterMap _
  structs := h.structs ▸ hds.filterMap _
  impls := h.impls ▸ hds.filterMap _

namespace Symbol

variable (symbol : Symbol)

theorem var?_declared : symbol.declared.var? = symbol.var?.map Prod.snd := by
  cases symbol <;> rfl

theorem proc?_declared : symbol.declared.proc? = symbol.proc?.map Entry.decl := by
  cases symbol <;> rfl

theorem struct?_declared : symbol.declared.struct? = symbol.structDef?.map Entry.decl := by
  cases symbol <;> rfl

theorem impl?_declared : symbol.declared.impl? = symbol.implBlock? := by
  cases symbol <;> rfl

end Symbol

variable {s t : State} {log : List Symbol}

/-- Tables that were empty list what has been declared. -/
theorem Grows.compares (h : Grows log s t) (hs : s.tables = {}) :
    t.tables.Compares Eq (log.map Symbol.declared) where
  vars := by
    have htyped : (t.tables.vars.entries.map fun e => e.decl.typed) = t.varTags.map Prod.snd := by
      rw [State.varTags, List.map_map]
      rfl
    rw [List.filterMap_map, funext (f := Declaration.var? ∘ _) Symbol.var?_declared,
      ← List.map_filterMap, htyped, h.vars, State.varTags, hs]
    rfl
  procedures := by
    rw [List.filterMap_map, funext (f := Declaration.proc? ∘ _) Symbol.proc?_declared,
      ← List.map_filterMap, h.procedures, hs]
    rfl
  structs := by
    rw [List.filterMap_map, funext (f := Declaration.struct? ∘ _) Symbol.struct?_declared,
      ← List.map_filterMap, h.structs, hs]
    rfl
  impls := by
    rw [List.filterMap_map, funext (f := Declaration.impl? ∘ _) Symbol.impl?_declared, h.impls, hs]
    rfl

/--
The declarations in a program are found in the tables in the same order: the variables of its `let`
statements, its procedures, each behind those in its body, its structs, and its impl blocks.  If
nothing but advice is reported, then the tables have nothing else.
-/
theorem parseProgram_tables (file : String) (source : List Char) :
    (parseProgram file source).state.tables.Compares List.Sublist
        (declarationsIn (parseProgram file source).program) ∧
      ((∀ d ∈ (parseProgram file source).diagnostics,
          d.code = some "S001" ∨ d.code = some "S011") →
        (parseProgram file source).state.tables.Compares Eq
          (declarationsIn (parseProgram file source).program)) := by
  have hstart : (Session.ofSource file source).state.Numbered := ⟨.empty _, .empty _⟩
  obtain ⟨log, program, hlog, hprogram, haccounts⟩ := declares_finish _ hstart
  have hall : (parseProgram file source).state.tables.Compares Eq (log.map Symbol.declared) :=
    (hlog.grows hstart).compares rfl
  have hsame : (parseProgram file source).program = program := hprogram
  rw [hsame]
  refine ⟨hall.of_sublist haccounts.sublist, fun h => ?_⟩
  rw [haccounts.all (advisory_of_codes h)]
  exact hall

/-- Declarations inside of bodies stay, and those of an impl block are not listed as its own. -/
theorem parseProgram_tables_nested :
    let p := parseProgram "p" ("struct P { x: i32 } " ++
      "proc f(a: i32) { let b: char = a; proc g() { let c = 1; } } " ++
      "impl P { proc m(d: P) { let e = d; struct Q { } } } let c = b;").toList
    p.diagnostics.map Diagnostic.code = [some "S001"] ∧
      (p.state.tables.procedures.names, p.state.tables.structs.names) =
        (["g", "f"], ["P", "Q"]) ∧
      (declarationsIn p.program).filterMap Declaration.var? =
        p.state.tables.vars.entries.map fun e => e.decl.typed := by
  intro p
  have hcodes : p.diagnostics.map Diagnostic.code = [some "S001"] := by decide +kernel
  have hadvice : ∀ d ∈ p.diagnostics, d.code = some "S001" ∨ d.code = some "S011" := fun d hd =>
    .inl (List.mem_singleton.mp (hcodes ▸ List.mem_map_of_mem hd))
  exact ⟨hcodes, by decide +kernel, ((parseProgram_tables "p" _).2 hadvice).vars⟩

end ScriptFront
