import ScriptFront.Proofs.Moments.Inner
import Mathlib.Data.Finset.Card

/-!
# Declarations stay, and repeated ones are warned of

Procedures, structs and impl blocks are declared for the rest of a program: their tables only grow
at the end.  A name that its table has already is declared again and reported, and nothing else is
reported in this way, so the warnings go along with the entries that repeat a name.

**Results.**

* `repeated_concat`, `length_repeated`: the names that come again in a list.
* `Moment.Grows.finds`: a name that is found stands for the same definition later.
* `Onward.warned`: the warnings go along with the entries that repeat a name, at every moment.
* `declarations_append_only`: so it is for every source text and any two moments of reading it.
-/

namespace ScriptFront

/-- The names that stand in the list before already, each as often as it comes again. -/
def repeated (names : List String) : List String :=
  (names.zipIdx.filter fun x => x.1 ∈ names.take x.2).map Prod.fst

section Repeated

variable (names : List String) (name : String)

theorem repeated_concat :
    repeated (names ++ [name]) = repeated names ++ if name ∈ names then [name] else [] := by
  have hbefore : (names.zipIdx.filter fun x => x.1 ∈ (names ++ [name]).take x.2) =
      names.zipIdx.filter fun x => x.1 ∈ names.take x.2 := by
    refine List.filter_congr fun x hx => ?_
    have hlt : x.2 < names.length := by simpa using List.snd_lt_of_mem_zipIdx hx
    rw [List.take_append_of_le_length (Nat.le_of_lt hlt)]
  unfold repeated
  rw [List.zipIdx_append, List.filter_append, List.map_append, hbefore]
  congr 1
  by_cases hmem : name ∈ names <;> simp [hmem]

/-- As many names come again as there are more names than different ones. -/
theorem length_repeated : (repeated names).length = names.length - names.toFinset.card := by
  have hsum : (repeated names).length + names.toFinset.card = names.length := by
    induction names using List.reverseRecOn with
    | nil => rfl
    | append_singleton names name ih =>
      rw [repeated_concat]
      by_cases hmem : name ∈ names
      · simp [hmem]
        omega
      · simp [hmem]
        omega
  omega

end Repeated

/-- The sorts of declarations that stay to the end of a program. -/
def SymbolKind.lasting : List SymbolKind :=
  [.procedure, .struct, .impl]

theorem SymbolKind.forall_lasting {P : SymbolKind → Prop} :
    (∀ kind ∈ SymbolKind.lasting, P kind) ↔ P .procedure ∧ P .struct ∧ P .impl := by
  simp [SymbolKind.lasting]

/-- The sort and the name of a declaration that is reported because the name is there already. -/
def Cause.redeclared? : Cause → Option (String × String)
  | redeclared sort name => some (sort, name)
  | _ => none

namespace State

/-- The declarations that have been reported because their names were there already. -/
def warnings (s : State) : List (String × String) :=
  s.problems.filterMap fun p => p.cause.redeclared?

/-- The names of those of one sort, oldest first. -/
def redeclared (s : State) (kind : SymbolKind) : List String :=
  (s.warnings.filter fun w => w.1 = kind.label).map Prod.snd

/-- The warnings go along with the entries of the tables that repeat a name. -/
structure Warned (s : State) : Prop where
  names : ∀ kind ∈ SymbolKind.lasting, s.redeclared kind = repeated (s.tables.names kind)
  sorts : ∀ w ∈ s.warnings, ∃ kind ∈ SymbolKind.lasting, w.1 = kind.label

end State

section Tables

variable (t : Tables) (symbol : Symbol)

theorem Tables.shadows_iff : t.shadows symbol ↔ symbol.name ∈ t.names symbol.kind := by
  have found {α : Type} [Named α] (u : SymbolTable α) (name : String) :
      (u.lookup? name).isSome ↔ name ∈ u.names := by
    simp [SymbolTable.lookup?, SymbolTable.names]
  unfold Tables.shadows Tables.lookup?
  cases symbol <;> simp only [Symbol.kind, Option.isSome_map] <;> exact found _ _

theorem Tables.names_declare (kind : SymbolKind) : (t.declare symbol).names kind =
    t.names kind ++ if symbol.kind = kind then [symbol.name] else [] := by
  cases symbol <;> cases kind <;>
    simp [Tables.declare, Tables.names, SymbolTable.names, Symbol.kind, Symbol.name]

end Tables

section Warnings

variable {s t : State}

theorem Cause.code_eq_iff (c : Cause) : c.code = "S011" ↔ c.redeclared?.isSome := by
  cases c <;> simp [code, redeclared?]

theorem State.length_warnings (s : State) :
    s.warnings.length = s.diagnostics.countP fun d => d.code = some "S011" := by
  unfold State.warnings State.diagnostics
  rw [List.length_filterMap_eq_countP, List.countP_map]
  congr 1
  funext p
  simp [Problem.diagnostic, Cause.code_eq_iff]

theorem State.warnings_report {p : Problem} (hp : ∀ sort name, p.cause ≠ .redeclared sort name) :
    (s.report p).warnings = s.warnings := by
  have hnone : p.cause.redeclared? = none := by
    cases hc : p.cause with
    | redeclared sort name => exact absurd hc (hp sort name)
    | _ => rfl
  unfold State.report
  split
  · rfl
  · simp [State.warnings, hnone]

theorem State.warnings_announce (s : State) (symbol : Nat → Symbol) (pos : Position) :
    (s.announce symbol pos).warnings = s.warnings ++
      if s.tables.shadows (symbol s.nextId) then
        [((symbol s.nextId).kind.label, (symbol s.nextId).name)]
      else [] := by
  unfold State.announce
  split
  · unfold State.warnings State.report
    rw [if_neg (by simp [Cause.isUnexpectedEnd])]
    simp [State.declareNext, Cause.redeclared?]
  · simp [State.warnings, State.declareNext]

theorem SymbolKind.label_injective : Function.Injective SymbolKind.label := by
  intro kind kind' h
  cases kind <;> cases kind' <;> simp_all [SymbolKind.label]

namespace State.Warned

theorem of_same (h : s.Warned) (hwarnings : t.warnings = s.warnings)
    (hnames : ∀ kind ∈ SymbolKind.lasting, t.tables.names kind = s.tables.names kind) :
    t.Warned where
  names kind hkind := by
    rw [hnames kind hkind, ← h.names kind hkind]
    unfold State.redeclared
    rw [hwarnings]
  sorts := hwarnings ▸ h.sorts

/-- A declaration is reported exactly if it repeats a name. -/
theorem announce (h : s.Warned) (symbol : Nat → Symbol) (pos : Position)
    (hkind : (symbol s.nextId).kind ∈ SymbolKind.lasting) : (s.announce symbol pos).Warned := by
  obtain ⟨htables, _⟩ := s.tables_announce symbol pos
  have hwarnings := s.warnings_announce symbol pos
  refine ⟨fun kind hmem => ?_, fun w hw => ?_⟩
  · rw [htables, Tables.names_declare]
    unfold State.redeclared
    rw [hwarnings, List.filter_append, List.map_append]
    by_cases hsame : (symbol s.nextId).kind = kind
    · rw [if_pos hsame, repeated_concat, ← h.names kind hmem, ← hsame]
      congr 1
      by_cases hshadows : s.tables.shadows (symbol s.nextId)
      · rw [if_pos hshadows, if_pos ((s.tables.shadows_iff _).mp hshadows)]
        simp
      · rw [if_neg hshadows, if_neg fun hname => hshadows ((s.tables.shadows_iff _).mpr hname)]
        rfl
    · have hlabel : (symbol s.nextId).kind.label ≠ kind.label :=
        fun hlabel => hsame (SymbolKind.label_injective hlabel)
      rw [if_neg hsame, List.append_nil, ← h.names kind hmem]
      split
      · simp [State.redeclared, hlabel]
      · simp [State.redeclared]
  · rw [hwarnings] at hw
    rcases List.mem_append.mp hw with hw | hw
    · exact h.sorts w hw
    · split at hw
      · rw [List.mem_singleton.mp hw]
        exact ⟨_, hkind, rfl⟩
      · cases hw

end State.Warned
end Warnings

section Moments

variable {m m' : Moment}

/-- A step that declares no symbol but variables keeps the names of the other tables. -/
theorem Tables.names_of_same {t u : Tables} (hprocedures : u.procedures = t.procedures)
    (hstructs : u.structs = t.structs) (himpls : u.impls.names = t.impls.names) :
    ∀ kind ∈ SymbolKind.lasting, u.names kind = t.names kind := by
  exact SymbolKind.forall_lasting.mpr
    ⟨congrArg SymbolTable.names hprocedures, congrArg SymbolTable.names hstructs, himpls⟩

theorem State.names_addProc (s : State) (e : Entry (Impl Expr)) (proc : Proc Expr) :
    (s.addProc e proc).tables.impls.names = s.tables.impls.names := by
  unfold SymbolTable.names State.addProc SymbolTable.update
  rw [List.map_map]
  refine List.map_congr_left fun f _ => ?_
  simp only [Function.comp_apply]
  split <;> rfl

/-- The warnings go along with the entries that repeat a name, at every moment. -/
theorem Onward.warned (h : Onward m m') (hm : m.state.Warned) : m'.state.Warned := by
  induction h with
  | refl => exact hm
  | tail _ hstep ih =>
    cases hstep with
    | token _ | leave _ | rebind _ _ | openScope _ | closeScope _ | declareVariable _ =>
      exact ih.of_same rfl (Tables.names_of_same rfl rfl rfl)
    | closeImpl => exact ih
    | @report s _ p hp =>
      refine ih.of_same (State.warnings_report hp) fun kind _ => ?_
      rw [(s.tables_report p).1]
    | declareStruct struct pos =>
      exact ih.announce (fun id => .struct ⟨id, struct⟩) pos
        (by simp [SymbolKind.lasting, Symbol.kind])
    | openImpl struct pos =>
      exact ih.announce (fun id => .impl ⟨id, ⟨struct, []⟩⟩) pos
        (by simp [SymbolKind.lasting, Symbol.kind])
    | @declareProcedure s _ proc pos _ =>
      have hcomplete : s.complete.Warned := ih.of_same rfl (Tables.names_of_same rfl rfl rfl)
      exact hcomplete.announce (fun id => .procedure ⟨id, proc⟩) pos
        (by simp [SymbolKind.lasting, Symbol.kind])
    | @addProc s _ e proc _ =>
      exact ih.of_same rfl (Tables.names_of_same rfl rfl (s.complete.names_addProc e proc))

/-- What a name stands for at one moment it stands for at a later one. -/
structure Moment.Finds (m m' : Moment) : Prop where
  procedures : ∀ name e, m.state.tables.procedures.lookup? name = some e →
    m'.state.tables.procedures.lookup? name = some e
  structs : ∀ name e, m.state.tables.structs.lookup? name = some e →
    m'.state.tables.structs.lookup? name = some e
  impls : ∀ name e, m.state.tables.impls.lookup? name = some e →
    ∃ f, m'.state.tables.impls.lookup? name = some f ∧ e.GrowsTo m.growing f

/-- A name that is found stands for the same definition later. -/
theorem Moment.Grows.finds (h : m.Grows m') : m.Finds m' where
  procedures _ _ he := h.procedures.find?_eq_some he
  structs _ _ he := h.structs.find?_eq_some he
  impls name e he := by
    have found {xs ys : List (Entry (Impl Expr))}
        (h : List.Forall₂ (Entry.GrowsTo m.growing) xs ys)
        (he : xs.find? (fun x => Named.name x.decl = name) = some e) :
        ∃ f, ys.find? (fun y => Named.name y.decl = name) = some f ∧ e.GrowsTo m.growing f := by
      induction h with
      | nil => cases he
      | @cons x y _ _ hxy _ ih =>
        have hname : Named.name y.decl = Named.name x.decl := congrArg StructDef.name hxy.struct
        by_cases hx : Named.name x.decl = name
        · rw [List.find?_cons_of_pos (by simpa using hx)] at he
          rw [List.find?_cons_of_pos (by simpa [hname] using hx)]
          obtain rfl := Option.some.inj he
          exact ⟨y, rfl, hxy⟩
        · rw [List.find?_cons_of_neg (by simpa using hx)] at he
          rw [List.find?_cons_of_neg (by simpa [hname] using hx)]
          exact ih he
    obtain ⟨kept, hprefix, hkept⟩ := h.impls
    obtain ⟨f, hf, hgrows⟩ := found hkept he
    exact ⟨f, hprefix.find?_eq_some hf, hgrows⟩

theorem State.warned_ofSource (file : String) (source : List Char) :
    (State.ofSource file source).Warned where
  names := SymbolKind.forall_lasting.mpr ⟨rfl, rfl, rfl⟩
  sorts := nofun

/-- How many more entries of a sort there are than different names. -/
def Tables.surplus (t : Tables) (kind : SymbolKind) : Nat :=
  (t.names kind).length - (t.names kind).toFinset.card

/-- The warnings of one sort are as many as the entries that repeat a name. -/
theorem State.Warned.surplus_eq {s : State} (h : s.Warned) {kind : SymbolKind}
    (hkind : kind ∈ SymbolKind.lasting) :
    (s.warnings.filter fun w => w.1 = kind.label).length = s.tables.surplus kind := by
  rw [Tables.surplus, ← length_repeated, ← h.names kind hkind, State.redeclared, List.length_map]

/-- There are as many warnings as there are entries more than different names. -/
theorem State.Warned.count_eq {s : State} (h : s.Warned) :
    (s.diagnostics.countP fun d => d.code = some "S011") =
      s.tables.surplus .procedure + s.tables.surplus .struct + s.tables.surplus .impl := by
  have split_sorts {ws : List (String × String)}
      (hws : ∀ w ∈ ws, ∃ kind ∈ SymbolKind.lasting, w.1 = kind.label) :
      ws.length = (ws.filter fun w => w.1 = SymbolKind.procedure.label).length +
        (ws.filter fun w => w.1 = SymbolKind.struct.label).length +
        (ws.filter fun w => w.1 = SymbolKind.impl.label).length := by
    induction ws with
    | nil => rfl
    | cons w ws ih =>
      have hrest := ih fun x hx => hws x (List.mem_cons_of_mem w hx)
      obtain ⟨kind, hkind, hw⟩ := hws w List.mem_cons_self
      simp only [SymbolKind.lasting, List.mem_cons, List.not_mem_nil, or_false] at hkind
      rcases hkind with rfl | rfl | rfl <;> simp [hw, SymbolKind.label] at hrest ⊢ <;> omega
  obtain ⟨hprocedures, hstructs, himpls⟩ :=
    SymbolKind.forall_lasting.mp fun kind hkind => h.surplus_eq hkind
  rw [← s.length_warnings, split_sorts h.sorts, hprocedures, hstructs, himpls]

end Moments

/--
A source text is read moment by moment to its end, where no impl block is being read, and so is what
is left of it behind any statement.  Each statement is read in this way, too, whether it fails or
not, and the statements in its bodies and in its impl block lie between its beginning and its end.
Of any two moments, the tables of procedures, structs and impl blocks at the first one are the
beginnings of those at the second one, but for procedures added to impl blocks that are being read,
and names stay what they are; the warnings of redeclarations go along with the entries that repeat a
name.
-/
theorem declarations_append_only (file : String) (source : List Char) :
    Onward ⟨.ofSource file source, []⟩ ⟨(parseProgram file source).state, []⟩ ∧
      (∀ session : Session, Onward ⟨session.state, []⟩ ⟨session.finish.state, []⟩) ∧
      (∀ s os, Onward ⟨s, os⟩ ⟨(Parse.statement s).2, os⟩) ∧
      (∀ m m' : Moment, m.Begins m' → Onward m m' ∧
        Onward ⟨(Parse.statement m'.state).2, m'.growing⟩
          ⟨(Parse.statement m.state).2, m.growing⟩) ∧
      ∀ m m' : Moment, Onward ⟨.ofSource file source, []⟩ m → Onward m m' →
        m.Grows m' ∧ m.Finds m' ∧ m'.state.Warned ∧
          (m'.state.diagnostics.countP fun d => d.code = some "S011") =
            m'.state.tables.surplus .procedure + m'.state.tables.surplus .struct +
              m'.state.tables.surplus .impl := by
  refine ⟨onward_finish (.ofSource file source), onward_finish, onward_statement,
    fun m m' h => ⟨h.onward, h.onward_end⟩, fun m m' h h' => ?_⟩
  have hnumbered := h.numbered (State.numbered_ofSource file source)
  have hgrows := h'.grows hnumbered
  have hwarned := h'.warned (h.warned (State.warned_ofSource file source))
  exact ⟨hgrows, hgrows.finds, hwarned, hwarned.count_eq⟩

/-- A procedure that is declared inside of a statement and once more behind it is found as it was
first, and reported once. -/
theorem declarations_append_only_repeated :
    let text := "if true { proc f() { } 1 } proc f() { }".toList
    let s := State.ofSource "p" text
    let m' : Moment := ⟨(parseProgram "p" text).state, []⟩
    ∃ m : Moment, Moment.Begins ⟨s, []⟩ m ∧ Onward ⟨s, []⟩ m ∧ Onward m m' ∧
      m.state.tables.procedures.names = ["f"] ∧ m.Finds m' ∧ m'.state.Warned ∧
      m'.state.tables.procedures.names = ["f", "f"] ∧
      (m'.state.diagnostics.countP fun d => d.code = some "S011") = 1 := by
  intro text s m'
  obtain ⟨_, hfinish, hstatement, hinside, hmoments⟩ := declarations_append_only "p" text
  let keyword : Token := ⟨.ifWord, "if", ⟨"p", 0, 0⟩, .none⟩
  let opening : Token := ⟨.leftBrace, "\x7b", ⟨"p", 0, 8⟩, .none⟩
  let procWord : Token := ⟨.procWord, "proc", ⟨"p", 0, 10⟩, .none⟩
  let one : Token := ⟨.literal, "1", ⟨"p", 0, 23⟩, .number⟩
  have hkeyword : s.unread = keyword :: s.unread.tail := by decide +kernel
  let t := finalState (Parse.condition (s.consume keyword s.unread.tail))
  obtain ⟨test, htest⟩ : ∃ test,
      Parse.condition (s.consume keyword s.unread.tail) = .ok test t := by
    obtain ⟨test, u, hu⟩ := Parse.exists_ok (p := Parse.condition)
      (s := s.consume keyword s.unread.tail) (by decide +kernel)
    exact ⟨test, hu.trans (by rw [show t = u from congrArg finalState hu])⟩
  have hopening : t.unread = opening :: t.unread.tail := by decide +kernel
  let i := t.consume opening t.unread.tail
  have hproc : i.unread = procWord :: i.unread.tail := by decide +kernel
  have hone : (Parse.statement i).2.unread = one :: (Parse.statement i).2.unread.tail := by
    decide +kernel
  have hbegins : Moment.Begins ⟨s, []⟩ ⟨(Parse.statement i).2, []⟩ :=
    .block (.test hkeyword (.inl rfl) htest) hopening rfl
      (.tail (.refl i) hproc (by decide) (by decide +kernel) rfl) hone (by decide)
  obtain ⟨hstart, hend⟩ := hinside _ _ hbegins
  have hrest : Onward ⟨(Parse.statement s).2, []⟩ m' := by
    have hparse : parseProgram "p" text =
        Session.finish ⟨(Parse.statement s).1.toList, (Parse.statement s).2⟩ :=
      Session.finish_of_cons hkeyword
    have hlast := hfinish ⟨(Parse.statement s).1.toList, (Parse.statement s).2⟩
    rw [← hparse] at hlast
    exact hlast
  have hbehind := ((hstatement _ []).trans hend).trans hrest
  obtain ⟨_, hfinds, hwarned, _⟩ := hmoments _ m' hstart hbehind
  exact ⟨_, hbegins, hstart, hbehind, by decide +kernel, hfinds, hwarned, by decide +kernel,
    by decide +kernel⟩

end ScriptFront
