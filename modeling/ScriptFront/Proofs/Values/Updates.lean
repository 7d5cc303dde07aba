import ScriptFront.Proofs.Values.Journey
import ScriptFront.Proofs.Values.Sound

/-!
# What an assignment of a field changes

An assignment binds its variable to the instance that it had in front of the assignment, with the
field bound anew.  What the value of the assignment assigns to other fields of the same variable is
gone then.

**Results.**

* `State.shows_assignField`, `State.shows_assignField_of_ne`: the fields behind an assignment.
* `Journey.shows_iff`: a field shows what has been assigned to it last.
* `field_assignment_shows`: the field that is assigned and the others, from the assignment on.
-/

namespace ScriptFront

open Parse

/-- The name stands for the variable `id`, and this for an instance whose field has a binding. -/
def State.Shows (s : State) (name : String) (id : Nat) (field : String) (b : Binding Expr) : Prop :=
  ∃ e v, s.tables.vars.lookup? name = some e ∧ e.id = id ∧ e.decl.value.instance? = some v ∧
    v.field? field = some b

section Fields

variable {s t u : State} {name field : Token} {e : Entry (Binding Expr)} {v : Instance Expr}
  {b : Binding Expr} {value : Expr} {ds : List (Nat × String)}

namespace State

theorem shows_iff {name : String} (hlookup : s.tables.vars.lookup? name = some e)
    (hvalue : e.decl.value.instance? = some v) (field : String) (b : Binding Expr) :
    s.Shows name e.id field b ↔ v.field? field = some b := by
  constructor
  · rintro ⟨e', v', hlookup', _, hvalue', hfield⟩
    obtain rfl := Option.some.inj (hlookup.symm.trans hlookup')
    obtain rfl := Option.some.inj (hvalue.symm.trans hvalue')
    exact hfield
  · exact fun hfield => ⟨e, v, hlookup, rfl, hvalue, hfield⟩

/-- A variable that is kept shows the same in every field that has not been assigned. -/
theorem shows_iff_of_kept {f : Entry (Binding Expr)} {name : String} (h : Kept ds e f)
    (hs : s.tables.vars.lookup? name = some e) (ht : t.tables.vars.lookup? name = some f)
    {field : String} (hfield : (e.id, field) ∉ ds) (b : Binding Expr) :
    t.Shows name e.id field b ↔ s.Shows name e.id field b := by
  cases hvalue : e.decl.value.instance? with
  | some v =>
    obtain ⟨w, hw, _, hsame⟩ := h.fields v hvalue
    rw [shows_iff hs hvalue, ← h.id, shows_iff ht hw, hsame field hfield]
  | none =>
    -- Nothing can be assigned to a field of it, so it is bound to what it was bound to.
    have hunassigned : ∀ other, (e.id, other) ∉ ds := by
      intro other hother
      have hsome := h.isSome ⟨other, hother⟩
      rw [hvalue] at hsome
      cases hsome
    constructor
    · rintro ⟨f', w, hf', _, hw, _⟩
      obtain rfl := Option.some.inj (ht.symm.trans hf')
      rw [h.value hunassigned, hvalue] at hw
      cases hw
    · rintro ⟨e', w, he', _, hw, _⟩
      obtain rfl := Option.some.inj (hs.symm.trans he')
      rw [hvalue] at hw
      cases hw

/-- Behind an assignment the name stands for its variable, bound to the new instance. -/
theorem lookup?_assignField {f : Entry (Binding Expr)} {name : String}
    (hu : u.tables.vars.lookup? name = some f) (hid : f.id = e.id) (v : Instance Expr)
    (field : String) (value : Expr) :
    ∃ g, (u.assignField e v field value).tables.vars.lookup? name = some g ∧ g.id = e.id ∧
      g.decl.value.instance? = some ((v.withField? field value).getD v) := by
  have hlookup := u.tables.vars.lookup?_update e.id
    (f := (·.rebind (.structInstance (u.binding e).value.pos ((v.withField? field value).getD v))))
    (fun _ => rfl) name
  rw [hu, Option.map_some, if_pos hid] at hlookup
  exact ⟨_, hlookup, hid, rfl⟩

end State

/-- As long as a name stands for a variable, its fields show what was assigned to them last. -/
theorem Journey.shows_iff {f : Entry (Binding Expr)} {name : String} (h : Journey s ds t)
    (hs : s.Numbered) (he : s.tables.vars.lookup? name = some e)
    (hf : t.tables.vars.lookup? name = some f) (hid : f.id = e.id) {field : String}
    (hfield : (e.id, field) ∉ ds) (b : Binding Expr) :
    t.Shows name e.id field b ↔ s.Shows name e.id field b := by
  have hmem := SymbolTable.mem_of_lookup? he
  obtain ⟨e', he', hkept⟩ := h.kept hs (SymbolTable.mem_of_lookup? hf)
    (hid ▸ hs.vars.lt e hmem)
  obtain rfl := hs.vars.eq_of_id he' hmem (hkept.id.symm.trans hid)
  exact State.shows_iff_of_kept hkept he hf hfield b

end Fields

/-- An assignment of a field is a statement of its own. -/
theorem statement_of_target {s t u : State} {name field : Token} {e : Entry (Binding Expr)}
    {v : Instance Expr} {b : Binding Expr} {value : Expr}
    (htarget : s.ReadsTarget name field e v b t) (hvalue : expr t = .ok value u) :
    statement s = (some (.fieldAssign name.pos
      ((u.assignField e v field.lexeme value).binding e) (b.rebind value) value),
      u.assignField e v field.lexeme value) := by
  obtain ⟨point, eq, rest, hunread, _⟩ := htarget.tokens
  have hfrom : statementFrom block name (s.consume name (point :: field :: eq :: rest)) =
      expr s := by
    unfold statementFrom
    rw [htarget.name_kind, expr_of_cons hunread, ← exprFrom_eq]
  exact statement_of_ok hunread (by rw [htarget.name_kind]; decide)
    (hfrom.trans (expr_of_target htarget hvalue))

/--
An assignment `p.f = value` whose value can be read is read, as an expression and as a statement.
Behind it the field `f` of `p` has the value.  Every other field has what it had in front of the
assignment, and this is what it has behind the value, unless the value assigns it, too.

Reading goes on from there in a journey: over every statement, up to every statement inside of one,
and over every expression.  As long as the name stands for the variable, every field that is not
assigned again keeps what it has, and this is what is read for it.
-/
theorem field_assignment_shows {s t u : State} {name field : Token} {e : Entry (Binding Expr)}
    {v : Instance Expr} {b : Binding Expr} {value : Expr} (hs : Reached s)
    (htarget : s.ReadsTarget name field e v b t) (hvalue : expr t = .ok value u) :
    ∃ (d : Binding Expr) (w : State),
      expr s = .ok (.fieldAssign name.pos d (b.rebind value) value) w ∧
      statement s = (some (.fieldAssign name.pos d (b.rebind value) value), w) ∧
      w.Shows name.lexeme e.id field.lexeme (b.rebind value) ∧
      (∀ other ≠ field.lexeme, ∀ c,
        w.Shows name.lexeme e.id other c ↔ s.Shows name.lexeme e.id other c) ∧
      (∃ ds, Course t ds u ∧ ∀ other ≠ field.lexeme, (e.id, other) ∉ ds → ∀ c,
        w.Shows name.lexeme e.id other c ↔ u.Shows name.lexeme e.id other c) ∧
      (∀ ds x, Journey w ds x →
        (∃ es, Journey w (ds ++ es) (statement x).2) ∧
        (∀ os m, Moment.Begins ⟨x, os⟩ m → ∃ es, Journey w (ds ++ es) m.state) ∧
        ∀ a y, x.Awaits → expr x = .ok a y → ∃ es, Journey w (ds ++ es) y) ∧
      ∀ ds x, Journey w ds x → ∀ f, x.tables.vars.lookup? name.lexeme = some f → f.id = e.id →
        ∀ other c, (e.id, other) ∉ ds → w.Shows name.lexeme e.id other c →
          x.Shows name.lexeme e.id other c ∧
          ∀ p point g rest, x.unread = p :: point :: g :: rest → p.kind = .identifier →
            p.lexeme = name.lexeme → point.kind = .dot → g.kind = .identifier →
            g.lexeme = other → (∀ t ∈ rest.head?, t.kind ≠ .assign) →
            expr x = foldOperators (.fieldAccess p.pos f.decl c)
              (x.consumeAll [p, point, g] rest) := by
  have hnumbered := hs.sound.numbered
  have ht := htarget.numbered hnumbered
  obtain ⟨ds, hcourse⟩ := course_of_expr htarget.awaits hvalue
  have hlookup : t.tables.vars.lookup? name.lexeme = some e := by
    rw [htarget.tables_eq]
    exact htarget.lookup
  obtain ⟨e', hlookup', hkept⟩ := (hcourse.changes ht).exists_lookup hlookup
  obtain ⟨f, hf, hid, hinstance⟩ :=
    State.lookup?_assignField hlookup' hkept.id v field.lexeme value
  have hw : (u.assignField e v field.lexeme value).Numbered :=
    ((hcourse.changes ht).assign hnumbered htarget).numbered hnumbered
  -- What a field shows behind the assignment is what the new instance has.
  have hshows (other : String) (c : Binding Expr) :
      (u.assignField e v field.lexeme value).Shows name.lexeme e.id other c ↔
        ((v.withField? field.lexeme value).getD v).field? other = some c := by
    rw [← hid]
    exact State.shows_iff hf hinstance other c
  have hother (other : String) (hne : other ≠ field.lexeme) (c : Binding Expr) :
      (u.assignField e v field.lexeme value).Shows name.lexeme e.id other c ↔
        s.Shows name.lexeme e.id other c := by
    rw [hshows, Instance.field?_withField?_of_ne hne, State.shows_iff htarget.lookup htarget.value]
  refine ⟨_, _, expr_of_target htarget hvalue, statement_of_target htarget hvalue, ?_, hother,
    ⟨ds, hcourse, fun other hne hunassigned c => ?_⟩, fun es x hjourney => ?_, ?_⟩
  · rw [hshows]
    exact Instance.field?_withField?_self htarget.field_eq value
  · rw [hother other hne, State.shows_iff_of_kept hkept hlookup hlookup' hunassigned,
      State.shows_iff hlookup htarget.value, State.shows_iff htarget.lookup htarget.value]
  · -- A journey from `x` goes on the one that has led to `x`.
    have hx := hjourney.numbered hw
    have hgoesOn (y : State) : x.Arrives y → ∃ fs, Journey _ (es ++ fs) y :=
      fun ⟨fs, hfs⟩ => ⟨fs, hjourney.trans hfs⟩
    refine ⟨hgoesOn _ (journey_of_statement hx (.refl x)),
      fun os m hm => hgoesOn _ (hm.arrives hx (.refl x)), fun a y hawaits ha => ?_⟩
    obtain ⟨fs, hcourse⟩ := course_of_expr hawaits ha
    exact ⟨fs, hjourney.trans (.course hcourse)⟩
  · intro es x hjourney g hg hgid other c hunassigned hc
    have hx : x.Shows name.lexeme e.id other c := by
      rw [← hid] at hc hgid hunassigned ⊢
      exact (hjourney.shows_iff hw hf hg hgid hunassigned c).mpr hc
    refine ⟨hx, ?_⟩
    obtain ⟨g', w, hg', _, hvalue', hfield⟩ := hx
    obtain rfl := Option.some.inj (hg.symm.trans hg')
    intro p point a rest hunread hp hpname hpoint ha hother hrest
    exact expr_of_access hunread hp hpoint ha hrest (hpname ▸ hg) hvalue' (hother ▸ hfield)

/-- The first field of a point is assigned. -/
theorem field_assignment_shows_point :
    ∃ (s w : State) (id : Nat) (b : Binding Expr) (e : Expr), Reached s ∧ expr s = .ok e w ∧
      e.kind = .fieldAssign ∧ w.Shows "p" id "a" b ∧
      ∀ c, w.Shows "p" id "b" c ↔ s.Shows "p" id "b" c := by
  let s₀ := State.ofSource "p"
    "struct P { a: i32, b: i32 } let p = P { a: 1, b: 2 } p.a = 5".toList
  let s₁ := (statement s₀).2
  let s := (statement s₁).2
  let name : Token := ⟨.identifier, "p", ⟨"p", 0, 53⟩, .none⟩
  let point : Token := ⟨.dot, ".", ⟨"p", 0, 54⟩, .none⟩
  let field : Token := ⟨.identifier, "a", ⟨"p", 0, 55⟩, .none⟩
  let eq : Token := ⟨.assign, "=", ⟨"p", 0, 57⟩, .none⟩
  let rest : List Token := [⟨.literal, "5", ⟨"p", 0, 59⟩, .number⟩]
  have hs₁ : Reached s₁ := .statement (.start _ _) (by decide +kernel)
  have hs : Reached s := .statement hs₁ (by decide +kernel)
  have hunread : s.unread = name :: point :: field :: eq :: rest := by decide +kernel
  have hfield : ((s.tables.vars.lookup? "p").bind fun e => e.decl.value.instance?.bind
      fun v => v.field? "a").isSome := by decide +kernel
  obtain ⟨value, u, hvalue⟩ := exists_ok (p := expr)
    (s := s.consumeAll [name, point, field, eq] rest) (by decide +kernel)
  obtain ⟨b, hb⟩ := Option.isSome_iff_exists.mp hfield
  obtain ⟨e, he, hb⟩ := Option.bind_eq_some_iff.mp hb
  obtain ⟨v, hv, hb⟩ := Option.bind_eq_some_iff.mp hb
  have htarget : s.ReadsTarget name field e v b (s.consumeAll [name, point, field, eq] rest) :=
    ⟨⟨point, eq, rest, hunread, rfl, rfl, rfl⟩, rfl, rfl, he, hv, hb⟩
  obtain ⟨d, w, hexpr, _, hshows, hothers, _⟩ := field_assignment_shows hs htarget hvalue
  exact ⟨s, w, e.id, b.rebind value, _, hs, hexpr, rfl, hshows, hothers "b" (by decide)⟩

end ScriptFront
