import ScriptFront.Proofs.Reading.Braces
import ScriptFront.Proofs.Reading.Declarations
import ScriptFront.Proofs.Surface.Instances
import ScriptFront.Proofs.Surface.Syntax

/-!
# Expressions are read from their text

When a reader of expressions succeeds, the tokens that it has read are the text of its result.

**Results.**

* `State.Spells`: some terminals stand between two states of reading.
* `expr_denotes`: an expression is read from a phrase that stands for it.
-/

namespace ScriptFront

open Surface

namespace State

/-- The terminals still to be read. -/
def terminals (s : State) : List Terminal :=
  s.unread.map Token.terminal

/-- What holds of every state that is reached without a failure. -/
structure Regular (s : State) : Prop where
  settled : s.Settled
  numbered : s.Numbered
  faithful : s.tables.Faithful
  lexed : ∀ t ∈ s.unread, t.terminal.Lexed

/-- Between two states some terminals have been read. -/
structure Spells (s : State) (w : List Terminal) (t : State) : Prop where
  regular : t.Regular
  terminals : s.terminals = w ++ t.terminals

namespace Regular

theorem consume {s : State} {t : Token} {rest : List Token} (h : s.Regular)
    (hunread : s.unread = t :: rest) : (s.consume t rest).Regular where
  settled := braceLaw.good_consume h.settled hunread
  numbered := (Extends.consume h.numbered t rest).numbered
  faithful := h.faithful
  lexed := by
    intro u hu
    refine h.lexed u ?_
    rw [hunread]
    exact List.mem_cons_of_mem t hu

/-- What is written down moves no token. -/
theorem of_even {s t : State} (h : s.Regular) (heven : s.Even t) (hnumbered : t.Numbered)
    (hfaithful : t.tables.Faithful) : t.Regular where
  settled := heven.settled h.settled
  numbered := hnumbered
  faithful := hfaithful
  lexed := by
    obtain ⟨ts, hts, _⟩ := heven
    intro u hu
    refine h.lexed u ?_
    rw [hts.unread]
    exact List.mem_append_right ts hu

theorem rebind {s : State} (h : s.Regular) (e : Entry (Binding Expr)) {value : Expr}
    (hvalue : value.Faithful) : (s.rebind e value).Regular :=
  h.of_even (.of_same rfl rfl rfl rfl) (Extends.rebind h.numbered e value).numbered
    (faithful_rebind h.faithful e hvalue)

end Regular

namespace Spells

theorem refl {s : State} (h : s.Regular) : s.Spells [] s :=
  ⟨h, rfl⟩

theorem trans {s t u : State} {w w' : List Terminal} (hst : s.Spells w t) (htu : t.Spells w' u) :
    s.Spells (w ++ w') u :=
  ⟨htu.regular, by rw [hst.terminals, htu.terminals, List.append_assoc]⟩

/-- Afterwards something has been written down. -/
theorem then_stay {s t u : State} {w : List Terminal} (h : s.Spells w t) (hu : u.Regular)
    (hunread : u.unread = t.unread) : s.Spells w u :=
  ⟨hu, by rw [h.terminals, State.terminals, State.terminals, hunread]⟩

theorem consume {s : State} {t : Token} {rest : List Token} (h : s.Regular)
    (hunread : s.unread = t :: rest) : s.Spells [t.terminal] (s.consume t rest) :=
  ⟨h.consume hunread, by simp [State.terminals, hunread, State.consume]⟩

end Spells
end State

namespace Parse

section Tokens

variable {k : TokenKind} {s u : State} {t : Token}

theorem terminal_of_kind (h : t.kind = k) (hk : k.isMark) : t.terminal = .mark k := by
  unfold Token.terminal
  split
  · rename_i hname
    rw [← h, hname] at hk
    cases hk
  · rename_i hliteral
    rw [← h, hliteral] at hk
    cases hk
  · rw [h]

theorem terminal_of_name (h : t.kind = .identifier) : t.terminal = .name t.lexeme := by
  simp [Token.terminal, h]

theorem terminal_of_literal (h : t.kind = .literal) : t.terminal = .literal t.lexeme t.lit := by
  simp [Token.terminal, h]

theorem advance_spells (hs : s.Regular) (h : advance s = .ok t u) :
    s.Spells [t.terminal] u ∧ u.tables = s.tables ∧ t.terminal.Lexed := by
  obtain ⟨rest, hunread, rfl⟩ := advance_eq_ok_iff.mp h
  refine ⟨.consume hs hunread, rfl, hs.lexed t ?_⟩
  rw [hunread]
  exact List.mem_cons_self

theorem expect_spells (hs : s.Regular) (h : expect k s = .ok t u) (hmark : k.isMark) :
    s.Spells [.mark k] u ∧ u.tables = s.tables := by
  obtain ⟨hk, rest, hunread, rfl⟩ := expect_eq_ok_iff.mp h
  rw [← terminal_of_kind hk hmark]
  exact ⟨.consume hs hunread, rfl⟩

theorem expect_spells_name (hs : s.Regular) (h : expect .identifier s = .ok t u) :
    s.Spells [.name t.lexeme] u ∧ u.tables = s.tables := by
  obtain ⟨hk, rest, hunread, rfl⟩ := expect_eq_ok_iff.mp h
  rw [← terminal_of_name hk]
  exact ⟨.consume hs hunread, rfl⟩

/-- A step that asks for a token first: it has been read, or the step goes on without it. -/
theorem accept_bind_spells {α : Type} {f : Bool → Parse α} {a : α} (hs : s.Regular)
    (h : (accept k >>= f) s = .ok a u) (hmark : k.isMark) :
    (∃ v, s.Spells [.mark k] v ∧ v.tables = s.tables ∧ f true v = .ok a u) ∨
      f false s = .ok a u := by
  rcases accept_eq (k := k) s with ⟨t, rest, hunread, hk, haccept⟩ | ⟨_, haccept⟩
  · rw [bind_of_ok haccept] at h
    have hspells := State.Spells.consume hs hunread
    rw [terminal_of_kind hk hmark] at hspells
    exact .inl ⟨_, hspells, rfl, h⟩
  · rw [bind_of_ok haccept] at h
    exact .inr h

theorem peek_bind {α : Type} (f : Option Token → Parse α) (s : State) :
    (peek >>= f) s = f s.unread.head? s := rfl

theorem check_bind {α : Type} (k : TokenKind) (f : Bool → Parse α) (s : State) :
    (check k >>= f) s = f (s.unread.head?.any fun t => t.kind = k) s := rfl

theorem tables_bind {α : Type} (f : Tables → Parse α) (s : State) :
    (tables >>= f) s = f s.tables s := rfl

end Tokens

section Lists

/-- There is a comma in front of the other parts, and behind the last one if it is asked for. -/
theorem joined_cons {x : List Terminal} {xs : List (List Terminal)} {trailing : Bool}
    (h : xs ≠ [] ∨ trailing) :
    joined (x :: xs) trailing = x ++ .mark .comma :: joined xs trailing := by
  cases xs with
  | nil =>
    rcases h with h | rfl
    · exact absurd rfl h
    · rfl
  | cons y ys => rfl

theorem spellAll_ne_nil {xs : List Phrase} (h : xs ≠ []) : Phrase.spellAll xs ≠ [] := by
  cases xs with
  | nil => exact absurd rfl h
  | cons x xs => exact List.cons_ne_nil _ _

theorem spellFields_ne_nil {fields : List (String × Phrase)} (h : fields ≠ []) :
    Phrase.spellFields fields ≠ [] := by
  cases fields with
  | nil => exact absurd rfl h
  | cons x xs => exact List.cons_ne_nil _ _

end Lists

/-- After the terminals `first` the rest of a phrase has been read, which stands for `e`. -/
def Completes (first : List Terminal) (e : Expr) (s t : State) : Prop :=
  ∃ (x : Phrase) (w : List Terminal), x.Denotes e ∧ x.spell = first ++ w ∧ s.Spells w t

theorem Completes.of_spells {first w : List Terminal} {e : Expr} {s t u : State}
    (hst : s.Spells w t) (h : Completes (first ++ w) e t u) : Completes first e s u := by
  obtain ⟨x, w', hx, hspell, htu⟩ := h
  exact ⟨x, w ++ w', hx, by rw [hspell, List.append_assoc], hst.trans htu⟩

/-- A phrase that has been read as a whole. -/
theorem Completes.whole {x : Phrase} {e : Expr} {s : State} (hx : x.Denotes e) (hs : s.Regular) :
    Completes x.spell e s s :=
  ⟨x, [], hx, by rw [List.append_nil], .refl hs⟩

section Operators

theorem mark_ofToken {k : TokenKind} {op : Operator} (h : Operator.ofToken? k = some op) :
    k = op.mark := by
  cases k <;> cases h <;> rfl

/-- An operator that is folded is written as its token, and is no negation. -/
theorem mark_foldable {k : TokenKind} {op : Operator} (h : Operator.foldable? k = some op) :
    k = op.mark ∧ op ≠ .neg := by
  refine ⟨mark_ofToken ?_, ?_⟩
  · unfold Operator.foldable? at h
    split at h
    · cases h
    · exact h
  · rintro rfl
    exact Operator.foldable?_ne_neg k h

theorem isMark_mark (op : Operator) : op.mark.isMark := by
  cases op <;> rfl

/-- A number behind a minus sign. -/
theorem negativeLiteral_denotes {pos : Position} {s u : State} {e : Expr} (hs : s.Regular)
    (h : negativeLiteral pos s = .ok e u) :
    ∃ text lit, (Operand.negative text lit).Denotes e ∧ s.Spells [.literal text lit] u ∧
      u.tables = s.tables := by
  obtain ⟨t, v, ht, h⟩ := bind_eq_ok_iff.mp h
  obtain ⟨hspells, htables, _⟩ := advance_spells hs ht
  split at h
  · rename_i hk
    injection h with he hu
    rw [← he, ← hu]
    rw [terminal_of_literal hk.1] at hspells
    exact ⟨t.lexeme, t.lit, .negative hk.2, hspells, htables⟩
  · cases h

theorem instance?_literal_of_negative {pos : Position} {s u : State} {e : Expr}
    (h : negativeLiteral pos s = .ok e u) : e.instance? = none := by
  obtain ⟨t, v, _, h⟩ := bind_eq_ok_iff.mp h
  split at h
  · injection h with he _
    rw [← he]
    rfl
  · cases h

theorem operand_denotes {s u : State} {e : Expr} (hs : s.Regular) (h : operand s = .ok e u) :
    ∃ y : Operand, y.Denotes e ∧ s.Spells y.spell u ∧ u.tables = s.tables := by
  obtain ⟨t, v, ht, hrest⟩ := bind_eq_ok_iff.mp h
  obtain ⟨hspells, htables, hlexed⟩ := advance_spells hs ht
  cases hk : t.kind
  case literal =>
    simp only [hk] at hrest
    injection hrest with he hu
    rw [← he, ← hu]
    rw [terminal_of_literal hk] at hspells
    rw [terminal_of_literal hk] at hlexed
    exact ⟨.literal t.lexeme t.lit, .literal hlexed, hspells, htables⟩
  case minus =>
    simp only [hk] at hrest
    obtain ⟨text, lit, hdenotes, hnumber, htables'⟩ :=
      negativeLiteral_denotes hspells.regular hrest
    rw [terminal_of_kind hk rfl] at hspells
    exact ⟨.negative text lit, hdenotes, hspells.trans hnumber, htables'.trans htables⟩
  case identifier =>
    simp only [hk] at hrest
    rw [tables_bind] at hrest
    cases hlookup : v.tables.vars.lookup? t.lexeme with
    | none =>
      simp only [hlookup] at hrest
      cases hrest
    | some entry =>
      simp only [hlookup] at hrest
      injection hrest with he hu
      rw [← he, ← hu]
      have hname : entry.decl.name = t.lexeme := SymbolTable.name_of_lookup? hlookup
      rw [terminal_of_name hk, ← hname] at hspells
      exact ⟨.reference entry.decl.name, .reference, hspells, htables⟩
  all_goals
    simp only [hk] at hrest
    cases hrest

/-- Operators and operands behind a phrase to which they may belong. -/
theorem foldUpTo_denotes (n : Nat) {lhs e : Expr} {x : Phrase} {s u : State} (hs : s.Regular)
    (hopen : x.isOpen) (hx : x.Denotes lhs) (h : foldUpTo n lhs s = .ok e u) :
    Completes x.spell e s u ∧ u.tables = s.tables ∧ (lhs.Faithful → e.Faithful) := by
  -- The left side grows with each operator, and so does the phrase that stands for it.
  induction n generalizing lhs x s with
  | zero =>
    injection h with he hu
    rw [← he, ← hu]
    exact ⟨.whole hx hs, rfl, id⟩
  | succ n ih =>
    rw [foldUpTo, peek_bind] at h
    cases hunread : s.unread with
    | nil =>
      simp only [hunread] at h
      injection h with he hu
      rw [← he, ← hu]
      exact ⟨.whole hx hs, rfl, id⟩
    | cons t rest =>
      simp only [hunread, List.head?_cons] at h
      cases hop : Operator.foldable? t.kind with
      | none =>
        simp only [hop] at h
        injection h with he hu
        rw [← he, ← hu]
        exact ⟨.whole hx hs, rfl, id⟩
      | some op =>
        simp only [hop] at h
        rw [bind_of_ok (advance_of_cons hunread)] at h
        obtain ⟨rhs, v, hrhs, hrest⟩ := bind_eq_ok_iff.mp h
        have hspells := State.Spells.consume hs hunread
        obtain ⟨hmark, hneg⟩ := mark_foldable hop
        rw [terminal_of_kind hmark (isMark_mark op)] at hspells
        have hbinary : (Expr.binary lhs.pos lhs op rhs).Faithful := Expr.faithful_of_none rfl
        by_cases hstep : op.isStep
        · rw [rightSide, if_pos hstep] at hrhs
          injection hrhs with hone hv
          subst hone hv
          obtain ⟨hall, htables, hfaithful⟩ := ih (x := .step x op) hspells.regular rfl
            (.step hopen hx hstep) hrest
          exact ⟨.of_spells hspells hall, htables, fun _ => hfaithful hbinary⟩
        · rw [rightSide, if_neg hstep] at hrhs
          obtain ⟨y, hy, hspells', htables⟩ := operand_denotes hspells.regular hrhs
          obtain ⟨hall, htables', hfaithful⟩ := ih (x := .chain x op y) hspells'.regular rfl
            (.chain hopen hx hy hneg (by simpa using hstep)) hrest
          exact ⟨.of_spells (hspells.trans hspells') hall, htables'.trans htables,
            fun _ => hfaithful hbinary⟩

theorem foldOperators_denotes {lhs e : Expr} {x : Phrase} {s u : State} (hs : s.Regular)
    (hopen : x.isOpen) (hx : x.Denotes lhs) (h : foldOperators lhs s = .ok e u) :
    Completes x.spell e s u ∧ u.tables = s.tables ∧ (lhs.Faithful → e.Faithful) :=
  foldUpTo_denotes _ hs hopen hx h

end Operators

/-- A reader that reads a phrase for its result. -/
def ReadsPhrase (p : Parse Expr) : Prop :=
  ∀ ⦃s e u⦄, s.Regular → p s = .ok e u →
    ∃ x : Phrase, x.Denotes e ∧ s.Spells x.spell u ∧ e.Faithful

section Compounds

variable {p : Parse Expr} (hp : ReadsPhrase p)
include hp

theorem commaSeparated_denotes (n : Nat) {s u : State} {es : List Expr} (hs : s.Regular)
    (h : commaSeparated p n s = .ok es u) :
    ∃ xs, xs ≠ [] ∧ List.Forall₂ Phrase.Denotes xs es ∧
      s.Spells (joined (Phrase.spellAll xs) false) u := by
  induction n generalizing s es with
  | zero =>
    obtain ⟨e, v, he, hrest⟩ := bind_eq_ok_iff.mp h
    obtain ⟨x, hx, hspells, _⟩ := hp hs he
    injection hrest with hes hu
    rw [← hes, ← hu]
    exact ⟨[x], List.cons_ne_nil _ _, .cons hx .nil, hspells⟩
  | succ n ih =>
    obtain ⟨e, v, he, hrest⟩ := bind_eq_ok_iff.mp h
    obtain ⟨x, hx, hspells, _⟩ := hp hs he
    rcases accept_bind_spells hspells.regular hrest rfl with
      ⟨v', hmark, _, hrest⟩ | hrest
    · obtain ⟨others, v'', hothers, hrest⟩ := bind_eq_ok_iff.mp hrest
      injection hrest with hes hu
      rw [hu] at hothers
      obtain ⟨xs, hne, hxs, hspells'⟩ := ih hmark.regular hothers
      rw [← hes]
      refine ⟨x :: xs, List.cons_ne_nil _ _, .cons hx hxs, ?_⟩
      rw [Phrase.spellAll, joined_cons (.inl (spellAll_ne_nil hne))]
      exact hspells.trans (hmark.trans hspells')
    · injection hrest with hes hu
      rw [← hes, ← hu]
      exact ⟨[x], List.cons_ne_nil _ _, .cons hx .nil, hspells⟩

theorem callValues_denotes {s u : State} {es : List Expr} (hs : s.Regular)
    (h : callValues p s = .ok es u) :
    ∃ xs, List.Forall₂ Phrase.Denotes xs es ∧ s.Spells (joined (Phrase.spellAll xs) false) u := by
  unfold callValues at h
  rw [check_bind] at h
  split at h
  · injection h with hes hu
    rw [← hes, ← hu]
    exact ⟨[], .nil, .refl hs⟩
  · obtain ⟨xs, _, hxs, hspells⟩ := commaSeparated_denotes hp _ hs h
    exact ⟨xs, hxs, hspells⟩

omit hp in
theorem map_value_zipWith {params : List TypedName} {values : List Expr}
    (h : values.length = params.length) :
    (params.zipWith (fun p value => (⟨p.name, p.typeName, value⟩ : Binding Expr)) values).map
      Binding.value = values := by
  induction params generalizing values with
  | nil =>
    rw [List.length_eq_zero_iff.mp h]
    rfl
  | cons p params ih =>
    cases values with
    | nil => cases h
    | cons value values =>
      rw [List.zipWith_cons_cons, List.map_cons, ih (Nat.succ.inj h)]

theorem callArgs_denotes {callee : Proc Expr} {pos : Position} {s u : State}
    {bindings : List (Binding Expr)} (hs : s.Regular)
    (h : callArgs p callee pos s = .ok bindings u) :
    ∃ xs, List.Forall₂ Phrase.Denotes xs (bindings.map Binding.value) ∧
      s.Spells
        (.mark .leftParen :: joined (Phrase.spellAll xs) false ++ [.mark .rightParen]) u := by
  obtain ⟨_, v, hopen, h⟩ := bind_eq_ok_iff.mp h
  obtain ⟨values, v', hvalues, h⟩ := bind_eq_ok_iff.mp h
  obtain ⟨_, v'', hclose, h⟩ := bind_eq_ok_iff.mp h
  obtain ⟨hleft, _⟩ := expect_spells hs hopen rfl
  obtain ⟨xs, hxs, hspells⟩ := callValues_denotes hp hleft.regular hvalues
  obtain ⟨hright, _⟩ := expect_spells hspells.regular hclose rfl
  split at h
  · cases h
  · rename_i hlength
    injection h with hbindings hu
    rw [← hbindings, ← hu, map_value_zipWith (Decidable.not_not.mp hlength)]
    exact ⟨xs, hxs, (hleft.trans hspells).trans hright⟩

/-- The fields of a struct literal are the first ones of the struct. -/
theorem literalFields_denotes {struct : String} {declared : List TypedName} {s u : State}
    {bindings : List (Binding Expr)} (hs : s.Regular)
    (h : literalFields p struct declared s = .ok bindings u) :
    ∃ fields comma, fields.map Prod.fst = bindings.map Binding.name ∧
      List.Forall₂ Phrase.Denotes (fields.map Prod.snd) (bindings.map Binding.value) ∧
      bindings.map Binding.typed <+: declared ∧
      s.Spells (joined (Phrase.spellFields fields) comma) u := by
  induction declared generalizing s bindings with
  | nil =>
    rw [literalFields, check_bind] at h
    split at h
    · injection h with hbindings hu
      rw [← hbindings, ← hu]
      exact ⟨[], false, rfl, .nil, List.prefix_rfl, .refl hs⟩
    · obtain ⟨t, v, _, h⟩ := bind_eq_ok_iff.mp h
      cases h
  | cons field others ih =>
    rw [literalFields, check_bind] at h
    split at h
    · injection h with hbindings hu
      rw [← hbindings, ← hu]
      exact ⟨[], false, rfl, .nil, List.nil_prefix, .refl hs⟩
    · obtain ⟨t, v, hname, h⟩ := bind_eq_ok_iff.mp h
      obtain ⟨hword, _⟩ := expect_spells_name hs hname
      split at h
      · cases h
      · rename_i hsame
        rw [Decidable.not_not] at hsame
        rw [hsame] at hword
        obtain ⟨_, v', hcolon, h⟩ := bind_eq_ok_iff.mp h
        obtain ⟨value, v'', hvalue, h⟩ := bind_eq_ok_iff.mp h
        obtain ⟨hmark, _⟩ := expect_spells hword.regular hcolon rfl
        obtain ⟨x, hx, hspells, _⟩ := hp hmark.regular hvalue
        have hfirst := (hword.trans hmark).trans hspells
        rcases accept_bind_spells hspells.regular h rfl with
          ⟨v₃, hsep, _, h⟩ | h
        · obtain ⟨rest, v₄, hrest, h⟩ := bind_eq_ok_iff.mp h
          injection h with hbindings hu
          rw [hu] at hrest
          obtain ⟨fields, trailing, hnames, hvalues, htyped, hall⟩ := ih hsep.regular hrest
          have htyped' : Binding.typed (⟨field.name, field.typeName, value⟩ : Binding Expr) ::
              rest.map Binding.typed <+: field :: others :=
            (List.prefix_cons_inj _).mpr htyped
          rw [← hbindings]
          cases fields with
          | nil =>
            -- The comma stands behind the last field.
            obtain rfl := List.map_eq_nil_iff.mp hnames.symm
            exact ⟨[(field.name, x)], true, rfl, .cons hx .nil, htyped',
              hfirst.trans (hsep.trans hall)⟩
          | cons second fields =>
            refine ⟨(field.name, x) :: second :: fields, trailing, ?_, .cons hx hvalues,
              htyped', ?_⟩
            · exact congrArg (List.cons field.name) hnames
            · rw [Phrase.spellFields,
                joined_cons (.inl (spellFields_ne_nil (List.cons_ne_nil _ _)))]
              exact hfirst.trans (hsep.trans hall)
        · injection h with hbindings hu
          rw [← hbindings, ← hu]
          exact ⟨[(field.name, x)], false, rfl, .cons hx .nil, ⟨others, rfl⟩, hfirst⟩

theorem structLiteral_denotes {pos : Position} {struct : StructDef} {s u : State} {e : Expr}
    (hs : s.Regular) (h : structLiteral p pos struct s = .ok e u) :
    Completes [.name struct.name] e s u ∧ e.Faithful := by
  obtain ⟨_, v, hopen, h⟩ := bind_eq_ok_iff.mp h
  obtain ⟨bindings, v', hfields, h⟩ := bind_eq_ok_iff.mp h
  obtain ⟨_, v'', hclose, h⟩ := bind_eq_ok_iff.mp h
  obtain ⟨hleft, _⟩ := expect_spells hs hopen rfl
  obtain ⟨fields, comma, hnames, hvalues, htyped, hspells⟩ :=
    literalFields_denotes hp hleft.regular hfields
  obtain ⟨hright, _⟩ := expect_spells hspells.regular hclose rfl
  split at h
  · cases h
  · rename_i hlength
    injection h with he hu
    rw [← he, ← hu]
    have hcomplete : (⟨struct, bindings⟩ : Instance Expr).Complete := by
      refine htyped.eq_of_length ?_
      have hle := htyped.length_le
      rw [List.length_map] at hle ⊢
      omega
    have hliteral := @Phrase.Denotes.structLiteral pos ⟨struct, bindings⟩ fields comma hnames
      hvalues
    exact ⟨⟨_, _, hliteral, rfl, (hleft.trans hspells).trans hright⟩,
      Expr.faithful_structInstance hcomplete⟩

theorem structUse_denotes {pos : Position} {struct : StructDef} {s u : State} {e : Expr}
    (hs : s.Regular) (h : structUse p pos struct s = .ok e u) :
    Completes [.name struct.name] e s u ∧ e.Faithful := by
  rcases accept_bind_spells hs h rfl with ⟨v, hmark, _, h⟩ | h
  · obtain ⟨method, v', hmethod, h⟩ := bind_eq_ok_iff.mp h
    obtain ⟨hword, _⟩ := expect_spells_name hmark.regular hmethod
    rw [tables_bind] at h
    cases hlookup : v'.tables.impls.lookup? struct.name with
    | none =>
      simp only [hlookup] at h
      cases h
    | some entry =>
      simp only [hlookup] at h
      have hstruct : entry.decl.struct.name = struct.name := SymbolTable.name_of_lookup? hlookup
      cases hproc : entry.decl.proc? method.lexeme with
      | none =>
        simp only [hproc] at h
        cases h
      | some callee =>
        simp only [hproc] at h
        obtain ⟨args, v'', hargs, h⟩ := bind_eq_ok_iff.mp h
        obtain ⟨xs, hxs, hspells⟩ := callArgs_denotes hp hword.regular hargs
        have hcallee : callee.name = method.lexeme := by
          simpa using List.find?_some hproc
        have hcall : (Phrase.implCall entry.decl.struct.name callee.name xs).Denotes
            (.implCall pos entry.id entry.decl.struct.name callee args) := .implCall hxs
        obtain ⟨hall, _, hfaithful⟩ := foldOperators_denotes hspells.regular rfl hcall h
        refine ⟨.of_spells ((hmark.trans hword).trans hspells) ?_,
          hfaithful (Expr.faithful_of_none rfl)⟩
        rw [Phrase.spell, hstruct, hcallee] at hall
        exact hall
  · exact structLiteral_denotes hp hs h

variable (hd : declarationLaw.Relates p p)
include hd

theorem fieldUse_denotes {pos : Position} {entry : Entry (Binding Expr)} {s u : State} {e : Expr}
    (hs : s.Regular) (hentry : entry ∈ s.tables.vars.entries)
    (h : fieldUse p pos entry s = .ok e u) :
    Completes [.name entry.decl.name, .mark .dot] e s u ∧ e.Faithful := by
  obtain ⟨name, v, hname, h⟩ := bind_eq_ok_iff.mp h
  obtain ⟨hword, htables⟩ := expect_spells_name hs hname
  cases hinstance : entry.decl.value.instance? with
  | none =>
    simp only [hinstance] at h
    cases h
  | some value =>
    simp only [hinstance] at h
    have hcomplete := hs.faithful entry hentry value hinstance
    cases hfield : value.field? name.lexeme with
    | none =>
      simp only [hfield] at h
      cases h
    | some field =>
      simp only [hfield] at h
      have hsame := hcomplete.name_of_field? hfield
      rcases accept_bind_spells hword.regular h rfl with
        ⟨v', hmark, htables', h⟩ | h
      · obtain ⟨newValue, v'', hvalue, h⟩ := bind_eq_ok_iff.mp h
        obtain ⟨x, hx, hspells, _⟩ := hp hmark.regular hvalue
        obtain ⟨current, v₃, hcurrent, h⟩ := bind_eq_ok_iff.mp h
        obtain ⟨_, v₄, hrebind, h⟩ := bind_eq_ok_iff.mp h
        obtain ⟨owner, v₅, howner, h⟩ := bind_eq_ok_iff.mp h
        injection hcurrent with _ hv₃
        injection hrebind with _ hv₄
        rw [← hv₄, ← hv₃] at howner
        have hextends : v'.Extends v'' := hd.ok trivial hvalue hmark.regular.numbered
        have howned := (hextends.trans (.rebind hextends.numbered _ _)).currentBinding_name
          (by rw [htables', htables]; exact hentry) howner
        have hupdated : (Expr.structInstance current.value.pos
            ((value.withField? name.lexeme newValue).getD value)).Faithful :=
          Expr.faithful_structInstance (hcomplete.withField? name.lexeme newValue).1
        have hstay := hspells.regular.rebind entry hupdated
        injection howner with _ hw
        injection h with he hu
        rw [← he, ← hu, ← hw]
        refine ⟨⟨.fieldAssign owner.name (field.rebind newValue).name x, _, .fieldAssign hx, ?_,
          hword.trans (hmark.trans (hspells.then_stay hstay rfl))⟩, Expr.faithful_of_none rfl⟩
        rw [Phrase.spell, howned, show (field.rebind newValue).name = field.name from rfl, hsame]
        rfl
      · have haccess : (Phrase.fieldAccess entry.decl.name field.name).Denotes
            (.fieldAccess pos entry.decl field) := .fieldAccess
        obtain ⟨hall, _, hfaithful⟩ := foldOperators_denotes hword.regular rfl haccess h
        refine ⟨.of_spells hword ?_, hfaithful (Expr.faithful_of_none rfl)⟩
        rw [Phrase.spell, hsame] at hall
        exact hall

theorem variableUse_denotes {pos : Position} {entry : Entry (Binding Expr)} {s u : State}
    {e : Expr} (hs : s.Regular) (hentry : entry ∈ s.tables.vars.entries)
    (h : variableUse p pos entry s = .ok e u) :
    Completes [.name entry.decl.name] e s u ∧ e.Faithful := by
  rcases accept_bind_spells hs h rfl with ⟨v, hmark, htables, h⟩ | h
  · obtain ⟨newValue, v', hvalue, h⟩ := bind_eq_ok_iff.mp h
    obtain ⟨x, hx, hspells, _⟩ := hp hmark.regular hvalue
    obtain ⟨target, w, htarget, h⟩ := bind_eq_ok_iff.mp h
    have hextends : v.Extends v' := hd.ok trivial hvalue hmark.regular.numbered
    have hname := hextends.currentBinding_name (by rw [htables]; exact hentry) htarget
    injection htarget with _ hw
    injection h with he hu
    rw [← he, ← hu, ← hw, ← hname]
    exact ⟨⟨.assign target.name x, _, .assign hx, rfl, hmark.trans hspells⟩,
      Expr.faithful_of_none rfl⟩
  · rcases accept_bind_spells hs h rfl with ⟨v, hmark, htables, h⟩ | h
    · obtain ⟨hall, hfaithful⟩ := fieldUse_denotes hp hd hmark.regular (by rwa [htables]) h
      exact ⟨.of_spells hmark hall, hfaithful⟩
    · have hreference : (Phrase.operand (.reference entry.decl.name)).Denotes
          (.reference pos entry.decl) := .operand .reference
      obtain ⟨hall, _, hfaithful⟩ := foldOperators_denotes hs rfl hreference h
      exact ⟨hall, hfaithful (Expr.faithful_reference (hs.faithful entry hentry))⟩

theorem nameUse_denotes {t : Token} {s u : State} {e : Expr} (hs : s.Regular)
    (h : nameUse p t s = .ok e u) : Completes [.name t.lexeme] e s u ∧ e.Faithful := by
  unfold nameUse at h
  rw [tables_bind] at h
  cases hvar : s.tables.vars.lookup? t.lexeme with
  | some entry =>
    simp only [Tables.resolve?, hvar] at h
    have hname : entry.decl.name = t.lexeme := SymbolTable.name_of_lookup? hvar
    rw [← hname]
    exact variableUse_denotes hp hd hs (SymbolTable.mem_of_lookup? hvar) h
  | none =>
    cases hproc : s.tables.procedures.lookup? t.lexeme with
    | some entry =>
      simp only [Tables.resolve?, hvar, hproc] at h
      have hname : entry.decl.name = t.lexeme := SymbolTable.name_of_lookup? hproc
      obtain ⟨args, v, hargs, h⟩ := bind_eq_ok_iff.mp h
      obtain ⟨xs, hxs, hspells⟩ := callArgs_denotes hp hs hargs
      have hcall : (Phrase.call entry.decl.name xs).Denotes (.call t.pos entry.decl args) :=
        .call hxs
      obtain ⟨hall, _, hfaithful⟩ := foldOperators_denotes hspells.regular rfl hcall h
      refine ⟨.of_spells hspells ?_, hfaithful (Expr.faithful_of_none rfl)⟩
      rw [Phrase.spell, hname] at hall
      exact hall
    | none =>
      cases hstruct : s.tables.structs.lookup? t.lexeme with
      | some entry =>
        simp only [Tables.resolve?, hvar, hproc, hstruct, Option.map_some] at h
        have hname : entry.decl.name = t.lexeme := SymbolTable.name_of_lookup? hstruct
        rw [← hname]
        exact structUse_denotes hp hs h
      | none =>
        simp only [Tables.resolve?, hvar, hproc, hstruct, Option.map_none] at h
        cases h

theorem exprStep_denotes {t : Token} {s u : State} {e : Expr} (hs : s.Regular)
    (ht : t.terminal.Lexed)
    (h : exprStep p t s = .ok e u) : Completes [t.terminal] e s u ∧ e.Faithful := by
  unfold exprStep at h
  cases hk : t.kind
  case literal =>
    simp only [hk] at h
    rw [terminal_of_literal hk] at ht ⊢
    have hliteral : (Phrase.operand (.literal t.lexeme t.lit)).Denotes
        (.literal t.pos t.lexeme t.lit) := .operand (.literal ht)
    obtain ⟨hall, _, hfaithful⟩ := foldOperators_denotes hs rfl hliteral h
    exact ⟨hall, hfaithful (Expr.faithful_of_none rfl)⟩
  case identifier =>
    simp only [hk] at h
    rw [terminal_of_name hk]
    exact nameUse_denotes hp hd hs h
  case not =>
    simp only [hk] at h
    rw [terminal_of_kind hk rfl]
    obtain ⟨inner, v, hinner, h⟩ := bind_eq_ok_iff.mp h
    obtain ⟨x, hx, hspells, _⟩ := hp hs hinner
    injection h with he hu
    rw [← he, ← hu]
    exact ⟨⟨.not x, _, .not hx, rfl, hspells⟩, Expr.faithful_of_none rfl⟩
  case minus =>
    simp only [hk] at h
    rw [terminal_of_kind hk rfl]
    obtain ⟨value, v, hvalue, h⟩ := bind_eq_ok_iff.mp h
    obtain ⟨text, lit, hdenotes, hspells, _⟩ := negativeLiteral_denotes hs hvalue
    obtain ⟨hall, _, hfaithful⟩ := foldOperators_denotes hspells.regular rfl (.operand hdenotes) h
    exact ⟨.of_spells hspells hall,
      hfaithful (Expr.faithful_of_none (instance?_literal_of_negative hvalue))⟩
  all_goals
    simp only [hk] at h
    cases h

end Compounds

section Expressions

theorem exprUpTo_denotes (n : Nat) : ReadsPhrase (exprUpTo n) := by
  induction n with
  | zero =>
    intro s e u _ h
    cases h
  | succ n ih =>
    intro s e u hs h
    obtain ⟨t, v, ht, h⟩ := bind_eq_ok_iff.mp h
    obtain ⟨hspells, _, hlexed⟩ := advance_spells hs ht
    obtain ⟨⟨x, w, hx, hspell, hrest⟩, hfaithful⟩ :=
      exprStep_denotes ih (StepLaw.relates_exprUpTo n) hspells.regular hlexed h
    refine ⟨x, hx, ?_, hfaithful⟩
    rw [hspell]
    exact hspells.trans hrest

/-- An expression is read from a phrase that stands for it. -/
theorem expr_denotes : ReadsPhrase expr :=
  fun s _ _ hs h => exprUpTo_denotes s.unread.length hs h

theorem exprFrom_denotes {t : Token} {s u : State} {e : Expr} (hs : s.Regular)
    (ht : t.terminal.Lexed)
    (h : exprFrom t s = .ok e u) : Completes [t.terminal] e s u := by
  rw [exprFrom_eq] at h
  exact (exprStep_denotes expr_denotes StepLaw.relates_expr hs ht h).1

end Expressions
end Parse
end ScriptFront
