import ScriptFront.Proofs.Moments.Inner

/-!
# What reading a program does to the variables

From one statement to another one variables are declared, the variables of scopes come and go, and
fields are assigned.  A journey is an account of it that lists the assignments, as a course does for
a single expression.

**Results.**

* `Journey.kept`: a variable that is still there at the end has its value, but for the fields that
  have been assigned.
* `Run.arrives`: reading is a journey.
* `Moment.Begins.arrives`: so it is up to the statements inside of a statement.
-/

namespace ScriptFront

open Parse

/-- Reading goes from one state to another one by courses; between them, variables come and go. -/
inductive Journey : State → List (Nat × String) → State → Prop where
  | course {s t : State} {ds : List (Nat × String)} : Course s ds t → Journey s ds t
  /-- What is declared has a new identity; what has been declared stays as it is or goes. -/
  | scope {s t : State} : t.Numbered → s.nextId ≤ t.nextId →
    (∀ e ∈ t.tables.vars.entries, e ∈ s.tables.vars.entries ∨ s.nextId ≤ e.id) → Journey s [] t
  | trans {s t u : State} {ds es : List (Nat × String)} :
    Journey s ds t → Journey t es u → Journey s (ds ++ es) u

namespace Changes

variable {s t : State} {ds : List (Nat × String)} (h : Changes ds s t)
include h

/-- A variable at the end was there at the start. -/
theorem exists_kept {f : Entry (Binding Expr)} (hf : f ∈ t.tables.vars.entries) :
    ∃ e ∈ s.tables.vars.entries, Kept ds e f := by
  have exists_left {xs ys : List (Entry (Binding Expr))} (h : List.Forall₂ (Kept ds) xs ys)
      (hf : f ∈ ys) : ∃ e ∈ xs, Kept ds e f := by
    induction h with
    | nil => cases hf
    | cons hef _ ih =>
      rcases List.mem_cons.mp hf with rfl | hf
      · exact ⟨_, List.mem_cons_self, hef⟩
      · obtain ⟨e, he, hkept⟩ := ih hf
        exact ⟨e, List.mem_cons_of_mem _ he, hkept⟩
  exact exists_left h.vars hf

/-- A name stands for the same variable at the start and at the end. -/
theorem exists_lookup {e : Entry (Binding Expr)} {name : String}
    (he : s.tables.vars.lookup? name = some e) :
    ∃ f, t.tables.vars.lookup? name = some f ∧ Kept ds e f := by
  have exists_right {xs ys : List (Entry (Binding Expr))} (h : List.Forall₂ (Kept ds) xs ys)
      (he : xs.find? (fun e => Named.name e.decl = name) = some e) :
      ∃ f, ys.find? (fun e => Named.name e.decl = name) = some f ∧ Kept ds e f := by
    induction h with
    | nil => cases he
    | @cons x y _ _ hxy _ ih =>
      have hname : Named.name y.decl = Named.name x.decl := hxy.name
      rw [List.find?_cons] at he ⊢
      rw [hname]
      split at he
      · obtain rfl := Option.some.inj he
        exact ⟨y, rfl, hxy⟩
      · exact ih he
  exact exists_right h.vars he

end Changes

namespace Journey

variable {s t : State} {ds : List (Nat × String)}

theorem of_tables (hs : s.Numbered) (htables : t.tables = s.tables) (hid : t.nextId = s.nextId) :
    Journey s [] t :=
  .scope (State.Extends.of_same hs htables hid).numbered (Nat.le_of_eq hid.symm)
    fun _ he => .inl (htables ▸ he)

theorem numbered (h : Journey s ds t) (hs : s.Numbered) : t.Numbered := by
  induction h with
  | course h => exact (h.changes hs).numbered hs
  | scope ht => exact ht
  | trans _ _ ih ih' => exact ih' (ih hs)

theorem nextId_le (h : Journey s ds t) (hs : s.Numbered) : s.nextId ≤ t.nextId := by
  induction h with
  | course h => exact Nat.le_of_eq (h.changes hs).nextId.symm
  | scope _ hid => exact hid
  | trans hst _ ih ih' => exact Nat.le_trans (ih hs) (ih' (hst.numbered hs))

/-- A variable that is still there has its value, but for the fields that have been assigned. -/
theorem kept (h : Journey s ds t) (hs : s.Numbered) {f : Entry (Binding Expr)}
    (hf : f ∈ t.tables.vars.entries) (hid : f.id < s.nextId) :
    ∃ e ∈ s.tables.vars.entries, Kept ds e f := by
  induction h generalizing f with
  | course h => exact (h.changes hs).exists_kept hf
  | scope _ _ hentries =>
    rcases hentries f hf with hf | hle
    · exact ⟨f, hf, .refl f⟩
    · exact absurd hid (Nat.not_lt_of_le hle)
  | trans hst htu ih ih' =>
    have ht := hst.numbered hs
    obtain ⟨e', he', hkept'⟩ := ih' ht hf (Nat.lt_of_lt_of_le hid (hst.nextId_le hs))
    obtain ⟨e, he, hkept⟩ := ih hs he' (hkept'.id ▸ hid)
    exact ⟨e, he, hkept.trans hkept'⟩

end Journey

section Reading

variable {s : State}

/-- A new entry of any table leaves the variables, or is one of them. -/
theorem State.mem_vars_declareNext {symbol : Nat → Symbol} (hid : ∀ id, (symbol id).id = id)
    {f : Entry (Binding Expr)} (hf : f ∈ (s.declareNext symbol).tables.vars.entries) :
    f ∈ s.tables.vars.entries ∨ s.nextId ≤ f.id := by
  have hsymbol := hid s.nextId
  unfold State.declareNext at hf
  cases hnext : symbol s.nextId with
  | «variable» e =>
    rw [hnext] at hf hsymbol
    rcases List.mem_append.mp hf with hf | hf
    · exact .inl hf
    · rw [List.mem_singleton.mp hf]
      exact .inr (Nat.le_of_eq hsymbol.symm)
  | procedure e | struct e | impl e =>
    rw [hnext] at hf
    exact .inl hf

/-- After a journey from `s`. -/
def State.Arrives (s t : State) : Prop :=
  ∃ ds, Journey s ds t

theorem State.Arrives.refl (s : State) : s.Arrives s :=
  ⟨[], .course (.refl s)⟩

namespace State.Arrives

variable {t u : State} (hs : s.Numbered) (h : s.Arrives t)
include h

theorem trans {ds : List (Nat × String)} (htu : Journey t ds u) : s.Arrives u :=
  let ⟨_, hst⟩ := h
  ⟨_, hst.trans htu⟩

theorem token {first : Token} {rest : List Token} (hunread : t.unread = first :: rest) :
    s.Arrives (t.consume first rest) :=
  h.trans (.course (.token hunread))

include hs

theorem numbered : t.Numbered :=
  let ⟨_, hst⟩ := h
  hst.numbered hs

theorem of_tables (htables : u.tables = t.tables) (hid : u.nextId = t.nextId) : s.Arrives u :=
  h.trans (.of_tables (h.numbered hs) htables hid)

theorem declareNext {symbol : Nat → Symbol} (hid : ∀ id, (symbol id).id = id) :
    s.Arrives (t.declareNext symbol) := by
  have hextends := State.Extends.declare (h.numbered hs) (symbol t.nextId) (hid t.nextId)
  exact h.trans (.scope hextends.numbered hextends.nextId fun _ => State.mem_vars_declareNext hid)

theorem openScope (bindings : List (Binding Expr)) : s.Arrives (t.openScope bindings) := by
  have hextends := State.Extends.openScope (h.numbered hs) bindings
  refine h.trans (.scope hextends.numbered hextends.nextId fun f hf => ?_)
  rw [State.entries_openScope] at hf
  exact (List.mem_append.mp hf).imp_right fun hf => (State.mem_entriesFor hf).1

theorem closeScope (entries : List (Entry (Binding Expr))) : s.Arrives (t.closeScope entries) := by
  refine h.trans (.scope ((h.numbered hs).closeScope entries) (Nat.le_refl _) fun f hf => .inl ?_)
  exact (SymbolTable.entries_eraseAll_sublist _ entries).subset hf

theorem addProc (e : Entry (Impl Expr)) (proc : Proc Expr) : s.Arrives (t.addProc e proc) :=
  h.trans (.scope ((h.numbered hs).addProc e proc) (Nat.le_refl _) fun _ hf => .inl hf)

theorem complete : s.Arrives t.complete :=
  h.of_tables hs rfl rfl

theorem announce (symbol : Nat → Symbol) (hid : ∀ id, (symbol id).id = id) (pos : Position) :
    s.Arrives (t.announce symbol pos) := by
  obtain ⟨htables, hnext⟩ := t.tables_announce symbol pos
  exact (h.declareNext hs hid).of_tables hs htables hnext

end State.Arrives

/-- Reading is a journey. -/
theorem Run.arrives {t u : State} {y : Outcome} (h : Run t y u) (hs : s.Numbered)
    (ht : s.Arrives t) : s.Arrives u := by
  induction h with
  | course hcourse => exact ht.trans (.course hcourse)
  | @report t p _ => exact ht.of_tables hs (t.tables_report p).1 (t.tables_report p).2
  | leave n => exact ht.of_tables hs rfl rfl
  | trans _ _ ih ih' => exact ih' (ih ht)
  | dropStatement _ ih | dropBody _ ih | dropProc _ ih | endBody _ ih | endProcs _ ih => exact ih ht
  | value hunread hstart hvalue =>
    obtain ⟨ds, hcourse⟩ := (course_of_exprFrom hunread hstart).1 _ _ hvalue
    exact ht.trans (.course hcourse)
  | letStatement _ _ hunread _ hvalue _ ih ih' =>
    obtain ⟨ds, hcourse⟩ := hvalue.course
    exact (ih' ((ih (ht.token hunread)).trans (.course hcourse))).declareNext hs fun _ => rfl
  | bareReturn hunread => exact ht.token hunread
  | returnStatement hunread hvalue =>
    obtain ⟨ds, hcourse⟩ := hvalue.course
    exact (ht.token hunread).trans (.course hcourse)
  | ifStatement hunread htest _ ih | whileStatement hunread htest _ ih =>
    obtain ⟨ds, hcourse⟩ := htest.course
    exact ih ((ht.token hunread).trans (.course hcourse))
  | forLoop _ hunread _ hstart hdots hstop _ ih ih' =>
    obtain ⟨ds, hcourse⟩ := hstart.course
    obtain ⟨es, hcourse'⟩ := hstop.course
    have hhead := ((ih (ht.token hunread)).trans (.course hcourse)).token hdots
    exact (ih' ((hhead.trans (.course hcourse')).openScope hs _)).closeScope hs _
  | structDef struct pos hunread _ ih =>
    exact (ih (ht.token hunread)).announce hs (fun id => .struct ⟨id, struct⟩) (fun _ => rfl) pos
  | proc _ _ _ _ hunread _ _ ih ih' =>
    exact (ih' ((ih (ht.token hunread)).openScope hs _)).closeScope hs _
  | @procDef _ _ proc pos _ ih =>
    exact ((ih ht).complete hs).announce hs (fun id => .procedure ⟨id, proc⟩) (fun _ => rfl) pos
  | @implBlock _ _ _ _ _ struct _ pos hunread _ _ ih ih' =>
    exact ih' ((ih (ht.token hunread)).announce hs (fun id => .impl ⟨id, ⟨struct, []⟩⟩)
      (fun _ => rfl) pos)
  | consBody _ _ _ _ ih ih' ih'' => exact ih'' (ih' (ih ht))
  | consProcs _ _ ih ih' => exact ih' (((ih ht).complete hs).addProc hs _ _)

/-- Reading a statement is a journey, whether it succeeds or fails. -/
theorem journey_of_statement {t : State} (hs : s.Numbered) (ht : s.Arrives t) :
    s.Arrives (Parse.statement t).2 :=
  (run_statement t).drop.arrives hs ht

section Inside

variable {t u : State} {m m' : Moment} (hs : s.Numbered)
include hs

theorem Members.arrives {entry : Entry (Impl Expr)} (h : Members entry t u) (ht : s.Arrives t) :
    s.Arrives u := by
  induction h with
  | refl => exact ht
  | tail _ hproc ih =>
    obtain ⟨w, hw, rfl⟩ := run_implProc hproc
    exact ((hw.arrives hs ih).complete hs).addProc hs entry _

theorem Continues.arrives {ofProc : Bool} (h : Continues ofProc t u) (ht : s.Arrives t) :
    s.Arrives u := by
  induction h with
  | refl => exact ht
  | tail _ _ _ _ _ ih => exact journey_of_statement hs ih

theorem Moment.Opens.arrives {ofProc : Bool} (h : m.Opens ofProc m') (hm : s.Arrives m.state) :
    s.Arrives m'.state := by
  cases h with
  | test hunread hk htest => exact (run_condition hk htest).arrives hs (hm.token hunread)
  | loop hunread _ hhead =>
    exact ((quiet_loopHead.run hhead).arrives hs (hm.token hunread)).openScope hs _
  | proc hunread _ hhead =>
    exact ((quiet_heading.run hhead).arrives hs (hm.token hunread)).openScope hs _
  | @method _ _ _ _ _ _ _ _ _ name struct _ hunread _ hhead hmembers hunread' _ hhead' =>
    have hopen := ((quiet_implHead.run hhead).arrives hs (hm.token hunread)).announce hs
      (fun id => .impl ⟨id, ⟨struct, []⟩⟩) (fun _ => rfl) name.pos
    have hproc := (hmembers.arrives hs hopen).token hunread'
    exact ((quiet_heading.run hhead').arrives hs hproc).openScope hs _

/-- Reading up to a statement inside of a statement is a journey. -/
theorem Moment.Begins.arrives (h : m.Begins m') (hm : s.Arrives m.state) :
    s.Arrives m'.state := by
  induction h with
  | block hopens hopen _ hcontinues _ _ =>
    exact hcontinues.arrives hs ((hopens.arrives hs hm).token hopen)
  | trans _ _ ih ih' => exact ih' (ih hm)

end Inside

end Reading
end ScriptFront
