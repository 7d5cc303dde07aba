import ScriptFront.Proofs.Rules.Basic

/-!
# Every reader of expressions keeps the rules

The readers of expressions are built from the smallest steps, and each of them uses one rule when it
puts its result together.  The readers below are given the hypothesis that the expressions inside,
which are read from fewer tokens, keep the rules.

**Results.**

* `ExprRules.after_foldOperators`: operators with their operands.
* `ExprRules.after_callArgs`, `ExprRules.after_literalFields`: arguments and fields have the names
  and types that were declared, in the same order.
* `ExprRules.after_expr`, `ExprRules.after_exprFrom`: expressions.
-/

namespace ScriptFront
namespace ExprRules

open Parse

variable {I : ExprRules} {n : Nat}

section Operands

/-- A value may stand behind an operator that takes an operand. -/
theorem awaitsValue_of_foldable? {k : TokenKind} {op : Operator}
    (h : Operator.foldable? k = some op) (hop : op.isStep = false) : k.awaitsValue := by
  cases k <;> cases h <;> first | rfl | cases hop

theorem after_negativeLiteral {s : State} {minus : Token} {rest : List Token}
    (hs : I.holds s) (hunread : s.unread = minus :: rest) (hk : minus.kind = .minus)
    (hlength : rest.length ≤ n) :
    I.After n I.operand (negativeLiteral minus.pos (s.consume minus rest)) := by
  have hread : I.Fits n (s.consume minus rest) :=
    ⟨I.read hs hunread (by rw [hk]; decide), hlength⟩
  refine .advance hread fun t rest' hunread' => ?_
  split
  · rename_i ht
    refine .pure (hread.consume hunread' (by rw [ht.1]; decide)) ?_
    rw [show rest = t :: rest' from hunread'] at hunread
    exact I.negative hs hunread hk ht.1 ht.2
  · exact I.stop _ hread.holds (State.awaits_consume (by rw [hk]; rfl)) hunread'

theorem after_operand {s : State} (hs : I.Fits n s) (hawaits : s.Awaits) :
    I.After n I.operand (Parse.operand s) := by
  refine .advance hs fun t rest hunread => ?_
  have hlength : rest.length ≤ n := by
    have hlength := hs.length_le
    rw [hunread, List.length_cons] at hlength
    exact Nat.le_of_succ_le hlength
  cases hk : t.kind
  case literal =>
    exact .pure (hs.consume hunread (by rw [hk]; decide)) (I.literal hs.holds hunread hk)
  case minus => exact after_negativeLiteral hs.holds hunread hk hlength
  case identifier =>
    have hread := hs.consume hunread (by rw [hk]; decide)
    refine .tables ?_
    cases hlookup : s.tables.vars.lookup? t.lexeme with
    | some e =>
      rw [show (s.consume t rest).tables = s.tables from rfl, hlookup]
      exact .pure hread (I.reference hs.holds hunread hlookup)
    | none =>
      rw [show (s.consume t rest).tables = s.tables from rfl, hlookup]
      exact .fail hread rfl _
  case invalid => exact .fail (hs.consume hunread (by rw [hk]; decide)) rfl _
  all_goals exact I.stop _ hs.holds hawaits hunread

theorem after_rightSide {s : State} {t : Token} {rest : List Token} {op : Operator}
    (hs : I.Fits n s) (hunread : s.unread = t :: rest) (hop : Operator.foldable? t.kind = some op) :
    I.After n I.operand (rightSide op t.pos (s.consume t rest)) := by
  have hread : I.Fits n (s.consume t rest) := by
    refine hs.consume hunread fun hk => ?_
    rw [hk] at hop
    cases hop
  unfold rightSide
  split
  · exact .pure hread (I.one hs.holds hunread)
  · rename_i hstep
    exact after_operand hread
      (State.awaits_consume (awaitsValue_of_foldable? hop (Bool.eq_false_iff.mpr hstep)))

theorem after_foldUpTo (m : Nat) {s : State} {lhs : Expr} (hs : I.Fits n s)
    (hlhs : I.primary lhs) : I.After n I.primary (foldUpTo m lhs s) := by
  induction m generalizing s lhs with
  | zero => exact .pure hs hlhs
  | succ m ih =>
    refine .peek ?_
    cases hunread : s.unread with
    | nil => exact .pure hs hlhs
    | cons t rest =>
      simp only [List.head?_cons]
      cases hop : Operator.foldable? t.kind with
      | none => exact .pure hs hlhs
      | some op =>
        simp only
        rw [bind_of_ok (advance_of_cons hunread)]
        refine (after_rightSide hs hunread hop).bind fun rhs u _ hrhs hu => ?_
        refine ih hu (I.binary hlhs ?_ hrhs)
        rintro rfl
        exact Operator.foldable?_ne_neg t.kind hop

theorem after_foldOperators {s : State} {lhs : Expr} (hs : I.Fits n s) (hlhs : I.primary lhs) :
    I.After n I.value (foldOperators lhs s) :=
  (after_foldUpTo _ hs hlhs).mono fun _ => I.value_of_primary

end Operands

section Compounds

variable (hp : ∀ s, I.Fits n s → s.Awaits → I.After n I.value (expr s))
include hp

theorem after_commaSeparated (m : Nat) {s : State} (hs : I.Fits n s) (hawaits : s.Awaits) :
    I.After n (fun values => ∀ v ∈ values, I.value v) (commaSeparated expr m s) := by
  induction m generalizing s with
  | zero =>
    refine (hp s hs hawaits).bind fun v t _ hv ht => .pure ht ?_
    exact List.forall_mem_singleton.mpr hv
  | succ m ih =>
    refine (hp s hs hawaits).bind fun v t _ hv ht => ?_
    refine .accept ht (by decide) (fun comma rest hunread hk hread => ?_) ?_
    · refine (ih hread (State.awaits_consume (by rw [hk]; rfl))).bind
        fun values u _ hvalues hu => .pure hu ?_
      exact List.forall_mem_cons.mpr ⟨hv, hvalues⟩
    · exact .pure ht (List.forall_mem_singleton.mpr hv)

theorem after_callValues {s : State} (hs : I.Fits n s) (hawaits : s.Awaits) :
    I.After n (fun values => ∀ v ∈ values, I.value v) (callValues expr s) := by
  refine .check ?_
  split
  · exact .pure hs (List.forall_mem_nil _)
  · exact after_commaSeparated hp _ hs hawaits

omit hp in
/-- Arguments get the names and types of the parameters. -/
theorem map_typed_zipWith {params : List TypedName} {values : List Expr}
    (h : values.length = params.length) :
    (params.zipWith (fun p value => (⟨p.name, p.typeName, value⟩ : Binding Expr)) values).map
      Binding.typed = params := by
  induction params generalizing values with
  | nil => rfl
  | cons p params ih =>
    cases values with
    | nil => cases h
    | cons value values =>
      rw [List.zipWith_cons_cons, List.map_cons, ih (Nat.succ.inj h)]
      rfl

theorem after_callArgs {callee : Proc Expr} {pos : Position} {s : State} (hs : I.Fits n s) :
    I.After n (fun args => args.map Binding.typed = callee.params ∧ ∀ b ∈ args, I.value b.value)
      (callArgs expr callee pos s) := by
  refine .expect hs (by decide) fun opening rest hunread hk hread => ?_
  refine (after_callValues hp hread (State.awaits_consume (by rw [hk]; rfl))).bind
    fun values t _ hvalues ht => ?_
  refine .expect ht (by decide) fun closing rest' _ _ hread' => ?_
  split
  · exact .fail hread' rfl _
  · rename_i hlength
    refine .pure hread' ⟨map_typed_zipWith (Decidable.not_not.mp hlength), ?_⟩
    intro b hb
    rw [← List.map_uncurry_zip_eq_zipWith] at hb
    obtain ⟨⟨p, value⟩, hmem, rfl⟩ := List.mem_map.mp hb
    exact hvalues value (List.of_mem_zip hmem).2

/-- The fields of a struct literal are the first ones of the struct. -/
theorem after_literalFields {struct : String} {declared : List TypedName} {s : State}
    (hs : I.Fits n s) :
    I.After n (fun fields => fields.map Binding.typed <+: declared ∧
      ∀ b ∈ fields, I.value b.value) (literalFields expr struct declared s) := by
  induction declared generalizing s with
  | nil =>
    refine .check ?_
    split
    · exact .pure hs ⟨List.prefix_rfl, List.forall_mem_nil _⟩
    · exact .expect hs (by decide) fun t rest _ _ hread => .fail hread rfl _
  | cons field others ih =>
    refine .check ?_
    split
    · exact .pure hs ⟨List.nil_prefix, List.forall_mem_nil _⟩
    · refine .expect hs (by decide) fun t rest _ _ hread => ?_
      split
      · exact .fail hread rfl _
      · refine .expect hread (by decide) fun colon rest' _ hk hread' => ?_
        refine (hp _ hread' (State.awaits_consume (by rw [hk]; rfl))).bind fun v u _ hv hu => ?_
        have hfirst : (⟨field.name, field.typeName, v⟩ : Binding Expr).typed = field := rfl
        refine .accept hu (by decide) (fun comma rest'' _ _ hread'' => ?_) ?_
        · refine (ih hread'').bind fun fields w _ hfields hw => .pure hw ⟨?_, ?_⟩
          · rw [List.map_cons, hfirst]
            exact List.cons_prefix_cons.mpr ⟨rfl, hfields.1⟩
          · exact List.forall_mem_cons.mpr ⟨hv, hfields.2⟩
        · refine .pure hu ⟨?_, List.forall_mem_singleton.mpr hv⟩
          rw [List.map_singleton, hfirst]
          exact List.cons_prefix_cons.mpr ⟨rfl, List.nil_prefix⟩

variable {s : State} {t : Token} {rest : List Token} (hs : I.holds s)
  (hunread : s.unread = t :: rest)
include hs hunread

/-- A struct literal behind the name `t` of its struct. -/
theorem after_structLiteral {e : Entry StructDef} (hread : I.Fits n (s.consume t rest))
    (hlookup : s.tables.structs.lookup? t.lexeme = some e) :
    I.After n I.value (Parse.structLiteral expr t.pos e.decl (s.consume t rest)) := by
  refine .expect hread (by decide) fun opening rest' _ _ hopen => ?_
  refine (after_literalFields hp hopen).bind fun fields u _ hfields hu => ?_
  refine .expect hu (by decide) fun closing rest'' _ _ hclose => ?_
  split
  · exact .fail hclose rfl _
  · rename_i hlength
    refine .pure hclose (I.structLiteral hs hunread hlookup ?_ hfields.2)
    refine hfields.1.eq_of_length_le ?_
    rw [List.length_map]
    exact Nat.not_lt.mp hlength

theorem after_structUse {e : Entry StructDef} (hread : I.Fits n (s.consume t rest))
    (hlookup : s.tables.structs.lookup? t.lexeme = some e) :
    I.After n I.value (structUse expr t.pos e.decl (s.consume t rest)) := by
  refine .accept hread (by decide) (fun colons rest' _ _ hread' => ?_)
    (after_structLiteral hp hs hunread hread hlookup)
  refine .expect hread' (by decide) fun method rest'' _ _ hread'' => .tables ?_
  have hname : e.decl.name = t.lexeme := SymbolTable.name_of_lookup? hlookup
  rw [hname]
  cases hblock : (((s.consume t rest).consume colons rest').consume method
      rest'').tables.impls.lookup? t.lexeme with
  | none => exact .fail hread'' rfl _
  | some block =>
    cases hcallee : block.decl.proc? method.lexeme with
    | none => simpa only [hcallee] using .fail hread'' rfl _
    | some callee =>
      simp only [hcallee]
      refine (after_callArgs hp hread'').bind fun args u _ hargs hu => ?_
      exact after_foldOperators hu
        (I.implCall hs hunread hread''.holds hblock hcallee hargs.1 hargs.2)

/-- A field behind the point after the name `t` of a variable. -/
theorem after_fieldUse {dot : Token} {rest' : List Token} {e : Entry (Binding Expr)}
    (hrest : rest = dot :: rest') (hdot : dot.kind = .dot) (hname : t.kind = .identifier)
    (hread : I.Fits n ((s.consume t rest).consume dot rest'))
    (hlookup : s.tables.vars.lookup? t.lexeme = some e) :
    I.After n I.value (fieldUse expr t.pos e ((s.consume t rest).consume dot rest')) := by
  refine .expect hread (by decide) fun field rest'' hunread' hfield hread' => ?_
  cases hv : e.decl.value.instance? with
  | none => exact .fail hread' rfl _
  | some v =>
    cases hb : v.field? field.lexeme with
    | none => simpa only [hb] using .fail hread' rfl _
    | some b =>
      simp only [hb]
      refine .accept hread' (by decide) (fun eq rest''' hunread'' heq hread'' => ?_) ?_
      · refine (hp _ hread'' (State.awaits_consume (by rw [heq]; rfl))).bind
          fun value u hvalue hval hu => ?_
        have htarget : s.ReadsTarget t field e v b
            (s.consumeAll [t, dot, field, eq] rest''') := by
          refine ⟨⟨dot, eq, rest''', ?_, hdot, heq, rfl⟩, hname, hfield, hlookup, hv, hb⟩
          have hfields : rest' = field :: rest'' := hunread'
          have hassign : rest'' = eq :: rest''' := hunread''
          rw [hunread, hrest, hfields, hassign]
        obtain ⟨hassigned, hresult⟩ := I.fieldAssign hs htarget hread''.holds hvalue hu.holds hval
        exact ⟨hresult, hu.stay hassigned rfl⟩
      · exact after_foldOperators hread' (I.fieldAccess hs hunread hlookup hv hb)

theorem after_variableUse {e : Entry (Binding Expr)} (hname : t.kind = .identifier)
    (hread : I.Fits n (s.consume t rest)) (hlookup : s.tables.vars.lookup? t.lexeme = some e) :
    I.After n I.value (variableUse expr t.pos e (s.consume t rest)) := by
  refine .accept hread (by decide) (fun eq rest' hunread' heq hread' => ?_) ?_
  · refine (hp _ hread' (State.awaits_consume (by rw [heq]; rfl))).bind
      fun value u hvalue hval hu => .pure hu ?_
    rw [show rest = eq :: rest' from hunread'] at hunread
    exact I.assign hs hunread heq hlookup hvalue hu.holds hval
  · refine .accept hread (by decide) (fun dot rest' hunread' hdot hread' => ?_) ?_
    · exact after_fieldUse hp hs hunread hunread' hdot hname hread' hlookup
    · exact after_foldOperators hread (I.primary_of_operand (I.reference hs hunread hlookup))

theorem after_nameUse (hname : t.kind = .identifier) (hread : I.Fits n (s.consume t rest)) :
    I.After n I.value (nameUse expr t (s.consume t rest)) := by
  refine .tables ?_
  cases hvar : (s.consume t rest).tables.vars.lookup? t.lexeme with
  | some e =>
    simp only [Tables.resolve?, hvar]
    exact after_variableUse hp hs hunread hname hread hvar
  | none =>
    cases hproc : (s.consume t rest).tables.procedures.lookup? t.lexeme with
    | some e =>
      simp only [Tables.resolve?, hvar, hproc]
      refine (after_callArgs hp hread).bind fun args u _ hargs hu => ?_
      exact after_foldOperators hu (I.call hs hunread hproc hargs.1 hargs.2)
    | none =>
      cases hstruct : (s.consume t rest).tables.structs.lookup? t.lexeme with
      | some e =>
        simp only [Tables.resolve?, hvar, hproc, hstruct, Option.map_some]
        exact after_structUse hp hs hunread hread hstruct
      | none =>
        simp only [Tables.resolve?, hvar, hproc, hstruct, Option.map_none]
        exact .fail hread rfl _

/-- An expression behind its first token. -/
theorem after_exprStep (hlength : rest.length ≤ n) (hstart : s.Awaits ∨ t.kind.startsValue) :
    I.After n I.value (exprStep expr t (s.consume t rest)) := by
  have hread : t.kind ≠ .semicolon → I.Fits n (s.consume t rest) := fun hk =>
    ⟨I.read hs hunread hk, hlength⟩
  unfold exprStep
  cases hk : t.kind
  case literal =>
    exact after_foldOperators (hread (by rw [hk]; decide))
      (I.primary_of_operand (I.literal hs hunread hk))
  case identifier => exact after_nameUse hp hs hunread hk (hread (by rw [hk]; decide))
  case not =>
    refine (hp _ (hread (by rw [hk]; decide)) (State.awaits_consume (by rw [hk]; rfl))).bind
      fun inner u _ hinner hu => .pure hu ?_
    exact I.negation hs hunread hinner
  case minus =>
    refine (after_negativeLiteral hs hunread hk hlength).bind fun lhs u _ hlhs hu => ?_
    exact after_foldOperators hu (I.primary_of_operand hlhs)
  case invalid => exact .fail (hread (by rw [hk]; decide)) rfl _
  all_goals exact I.stop _ hs (hstart.resolve_right (by rw [hk]; decide)) hunread

end Compounds

/-- An expression that stands where a value is awaited keeps the rules. -/
theorem after_expr {s : State} (hs : I.Fits n s) (hawaits : s.Awaits) :
    I.After n I.value (expr s) := by
  -- The first token is read before anything inside of the expression, so fewer are left for that.
  induction n generalizing s with
  | zero =>
    have hend : s.unread = [] := List.length_eq_zero_iff.mp (Nat.le_zero.mp hs.length_le)
    rw [expr_of_nil hend]
    exact .failAtEnd hs hend _
  | succ n ih =>
    rw [expr_eq]
    refine .advance hs fun t rest hunread => ?_
    have hlength := hs.length_le
    rw [hunread, List.length_cons] at hlength
    exact (after_exprStep (fun u hu hu' => ih hu hu') hs.holds hunread
      (Nat.le_of_succ_le_succ hlength) (.inl hawaits)).weaken (Nat.le_succ n)

/-- An expression whose first token has been read keeps the rules. -/
theorem after_exprFrom {s : State} {t : Token} {rest : List Token} (hs : I.holds s)
    (hunread : s.unread = t :: rest) (hlength : rest.length ≤ n) (hstart : t.kind.startsValue) :
    I.After n I.value (exprFrom t (s.consume t rest)) := by
  rw [exprFrom_eq]
  exact after_exprStep (fun _ hu hu' => after_expr hu hu') hs hunread hlength (.inr hstart)

end ExprRules
end ScriptFront
