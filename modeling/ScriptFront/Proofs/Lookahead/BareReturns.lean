import ScriptFront.Proofs.Lookahead.Readers
import ScriptFront.Proofs.Moments.Inner

/-!
# What follows a bare return is inert

A `return` without a value that stands in the body of a procedure itself ends that body.  What
stands between it and the closing brace is skipped, and skipping looks at braces only.

**Approach.** Two texts with other tokens between the `return` and the closing brace fork at the
`return`.  Up to there they are read alike, because readers look one token ahead at most.  The
`return` is bare in both, and skipping stops in both behind the same closing brace
(`body_of_bareReturn`).  So the two final states are told apart only by the tokens that have been
read.

**Results.**

* `splitAtClose_of_balanced`: skipping stops behind the matching brace.
* `Unbroken.then_body`, `Unbroken.fork`: the statements in front of the `return`.
* `bareReturn_inert`: whatever balanced tokens follow a bare `return`, the procedure is the same and
  reading goes on in the same way.
-/

namespace ScriptFront

section Skipping

/-- As long as no brace closes the block, skipping goes on. -/
theorem splitAtClose_of_above {depth : Nat} {us : List Token} (h : Above depth us)
    (ts : List Token) :
    splitAtClose depth (us ++ ts) =
      (us ++ (splitAtClose (us.foldl depthAfter depth) ts).1,
        (splitAtClose (us.foldl depthAfter depth) ts).2) := by
  induction us generalizing depth with
  | nil => rfl
  | cons t us ih =>
    obtain ⟨-, hus⟩ := (above_cons _ _ _).mp h
    have hnonneg := hus [] List.nil_prefix
    rw [balance_nil, add_zero] at hnonneg
    cases hk : t.kind
    case leftBrace =>
      rw [Token.brace_of_open hk] at hus
      simp only [List.cons_append, splitAtClose, hk, List.foldl_cons, depthAfter]
      rw [ih (by exact_mod_cast hus)]
    case rightBrace =>
      rw [Token.brace_of_close hk] at hus hnonneg
      have hpos : depth ≠ 0 := by omega
      have hdepth : (depth : Int) + -1 = ((depth - 1 : Nat) : Int) := by omega
      rw [hdepth] at hus
      simp only [List.cons_append, splitAtClose, hk, if_neg hpos, List.foldl_cons, depthAfter]
      rw [ih hus]
    all_goals
      rw [Token.brace_of_plain (by simp [hk]) (by simp [hk]), add_zero] at hus
      simp only [List.cons_append, splitAtClose, hk, List.foldl_cons, depthAfter]
      rw [ih hus]

/-- Skipping stops behind the brace that matches the one of the block. -/
theorem splitAtClose_of_balanced {us : List Token} (h : Balanced us) {closing : Token}
    (hclosing : closing.kind = .rightBrace) (rest : List Token) :
    splitAtClose 0 (us ++ closing :: rest) = (us ++ [closing], some rest) := by
  rw [splitAtClose_of_above h.above, h.foldl_depthAfter]
  simp only [splitAtClose, hclosing, if_true]

end Skipping

namespace Parse

section Bodies

/-- Statements of a block are read one after the other, none of them is aborted, and none is a bare
`return`. -/
inductive Unbroken : State → List Expr → State → Prop
  | nil (s : State) : Unbroken s [] s
  | cons {s u v : State} {e : Option Expr} {es : List Expr} :
      optionalStatement block s = .ok e u → isBareReturn e = false → Unbroken u es v →
      Unbroken s (e.toList ++ es) v

variable {s u v : State} {es es' : List Expr} {e : Option Expr}

/-- A statement that is read does not begin with the brace that closes the block. -/
theorem exists_of_optionalStatement (h : optionalStatement block s = .ok e u) :
    ∃ t rest, s.unread = t :: rest ∧ t.kind ≠ .rightBrace := by
  cases hunread : s.unread with
  | nil =>
    unfold optionalStatement at h
    rw [bind_of_ok (accept_of_nil hunread)] at h
    simp only [Bool.false_eq_true, if_false] at h
    rw [bind_of_error (advance_of_nil hunread)] at h
    cases h
  | cons t rest =>
    refine ⟨t, rest, rfl, fun hk => ?_⟩
    rw [optionalStatement_of_cons block hunread, if_neg (by rw [hk]; decide)] at h
    simp only [statementFrom, hk] at h
    cases h

theorem statement_of_optionalStatement (h : optionalStatement block s = .ok e u) :
    statement s = (e, u) := by
  have halways := always_statement_of_ok h
  injection halways with he hu
  exact Prod.ext he hu

namespace Unbroken

theorem settled (h : Unbroken s es u) (hs : s.Settled) : u.Settled := by
  induction h with
  | nil => exact hs
  | cons hread _ _ ih =>
    exact ih ((StepLaw.relates_optionalStatement relates_block).ok hs hread |>.settled hs)

theorem length_le (h : Unbroken s es u) : u.unread.length ≤ s.unread.length := by
  induction h with
  | nil => exact Nat.le_refl _
  | @cons s _ _ _ _ hread _ _ ih =>
    have hle := shrinks_optionalStatement s
    rw [hread] at hle
    exact Nat.le_trans ih hle

/-- Behind some statements the rest of the body is read. -/
theorem then_body (h : Unbroken s es u) (hs : s.Settled) (hu : body true u = .ok es' v) :
    body true s = .ok (es ++ es') v := by
  induction h with
  | nil => exact hu
  | @cons s _ _ _ _ hread hbare _ ih =>
    have heven := (StepLaw.relates_optionalStatement relates_block).ok hs hread
    obtain ⟨t, rest, hunread, hk⟩ := exists_of_optionalStatement hread
    have hstatement := statement_of_optionalStatement hread
    have hskip : ¬ (true && isBareReturn (statement s).1) = true := by
      rw [hstatement, hbare, Bool.and_false]
      exact Bool.false_ne_true
    rw [body_of_open true hunread hk (hstatement ▸ (heven.settled hs).closed), if_neg hskip,
      hstatement, bind_of_ok (ih (heven.settled hs) hu), List.append_assoc]
    rfl

/-- Statements that end in front of a fork are read on both ways. -/
theorem fork {k : Fork} (h : Unbroken (s.inFront (k.token :: k.left)) es u)
    (hlt : k.left.length < u.unread.length) :
    ∃ t : State, u = t.inFront (k.token :: k.left) ∧
      Unbroken (s.inFront (k.token :: k.right)) es (t.inFront (k.token :: k.right)) := by
  generalize hstart : s.inFront (k.token :: k.left) = start at h
  induction h generalizing s with
  | nil => exact ⟨s, hstart.symm, .nil _⟩
  | cons hread hbare hothers ih =>
    subst hstart
    have hlonger := Nat.lt_of_lt_of_le hlt hothers.length_le
    obtain ⟨t, rfl, hother⟩ :=
      (oneAhead_optionalStatement.alike s (Nat.le_refl _)).ok_of_lt hread hlonger
    obtain ⟨v, hv, hrest⟩ := ih hlt rfl
    exact ⟨v, hv, .cons hother hbare hrest⟩

end Unbroken

/-- A bare `return` ends the body of a procedure at the brace that closes it. -/
theorem body_of_bareReturn {ret semi closing : Token} {skipped rest : List Token}
    (hret : ret.kind = .returnWord) (hsemi : semi.kind = .semicolon)
    (hclosing : closing.kind = .rightBrace) (hskipped : Balanced skipped)
    (hopen : s.closedBlocks = 0)
    (hunread : s.unread = ret :: semi :: (skipped ++ closing :: rest)) :
    body true s = .ok [.returnStatement ret.pos none]
      { s with
        read := (ret :: semi :: (skipped ++ [closing])).reverse ++ s.read
        unread := rest
        braceDepth := s.braceDepth - 1 } := by
  have hreturn : statement s = (some (.returnStatement ret.pos none),
      s.consume ret (semi :: (skipped ++ closing :: rest))) := by
    refine statement_of_ok hunread (by rw [hret]; decide) ?_
    unfold statementFrom
    simp only [hret]
    unfold returnStatement
    rw [bind_of_ok (peek_of_cons rfl)]
    simp only [hsemi, true_or, if_true]
    rfl
  have hplain : Balanced (semi :: skipped) :=
    (Balanced.plain (by simp [hsemi]) (by simp [hsemi])).append hskipped
  have hclose : skipToClose (s.consume ret (semi :: (skipped ++ closing :: rest))) = .ok ()
      ((s.consume ret (semi :: (skipped ++ closing :: rest))).consumeAll
        (semi :: skipped ++ [closing]) rest) :=
    skipToClose_of_some (splitAtClose_of_balanced hplain hclosing rest)
  have hdepth : (semi :: skipped ++ [closing]).foldl depthAfter (depthAfter s.braceDepth ret) =
      s.braceDepth - 1 := by
    rw [List.foldl_append, hplain.foldl_depthAfter]
    simp [depthAfter, hret, hclosing]
  have hread : (semi :: skipped ++ [closing]).reverse ++ ret :: s.read =
      (ret :: semi :: (skipped ++ [closing])).reverse ++ s.read := by
    simp
  rw [body_of_open true hunread (by rw [hret]; decide) (by rw [hreturn]; exact hopen), hreturn]
  simp only [isBareReturn, Bool.and_self, if_true]
  rw [bind_of_ok hclose]
  unfold State.consumeAll State.consume
  simp only [hdepth, hread]
  rfl

end Bodies

section Procedures

theorem oneAhead_heading {k : Fork} {n : Nat} : OneAhead k n heading :=
  (oneAhead_expect _).bind fun _ => (oneAhead_expect _).bind fun _ =>
    oneAhead_parameters.bind fun _ => (oneAhead_expect _).bind fun _ =>
      oneAhead_optionalType.bind fun _ => oneAhead_pure _

theorem relates_heading {L : StepLaw} : L.Relates heading heading :=
  (StepLaw.relates_expect rfl).bind fun _ => (StepLaw.relates_expect rfl).bind fun _ =>
    StepLaw.relates_parameters.bind fun _ => (StepLaw.relates_expect rfl).bind fun _ =>
      StepLaw.relates_optionalType.bind fun _ => StepLaw.relates_pure _

variable {s t u : State} {keyword opening : Token} {h : Heading} {inner : List Token}
  {es : List Expr}

/-- A procedure is its heading and its body. -/
theorem procedure_of_body (hhead : heading s = .ok h t) (hunread : t.unread = opening :: inner)
    (hopening : opening.kind = .leftBrace)
    (hbody : body true ((t.openScope (h.variables t)).consume opening inner) = .ok es u) :
    procedure block keyword s = .ok (h.name, h.proc keyword es u)
      (u.closeScope (t.entriesFor (h.variables t))).complete := by
  refine procedure_of_block hhead ?_
  have hexpect : expect .leftBrace (t.openScope (h.variables t)) =
      .ok opening ((t.openScope (h.variables t)).consume opening inner) :=
    expect_of_cons hunread hopening
  unfold block braced
  rw [bind_of_ok hexpect]
  exact hbody

/-- Behind its keyword a procedure is read up to the state `u` in its body: its heading up to the
state `t`, the opening brace, and the statements `es`. -/
structure ReadsBody (s : State) (h : Heading) (t : State) (es : List Expr) (u : State) : Prop where
  heading : heading s = .ok h t
  body : ∃ opening inner, t.unread = opening :: inner ∧ opening.kind = .leftBrace ∧
    Unbroken ((t.openScope (h.variables t)).consume opening inner) es u

namespace ReadsBody

/-- Up to the fork the same is read on both ways. -/
theorem fork {k : Fork} (hread : ReadsBody (s.inFront (k.token :: k.left)) h t es u)
    (hlt : k.left.length < u.unread.length) :
    ∃ t₀ u₀ : State, t = t₀.inFront (k.token :: k.left) ∧ u = u₀.inFront (k.token :: k.left) ∧
      ReadsBody (s.inFront (k.token :: k.right)) h (t₀.inFront (k.token :: k.right)) es
        (u₀.inFront (k.token :: k.right)) := by
  obtain ⟨hhead, opening, inner, hunread, hopening, hstatements⟩ := hread
  have hle : u.unread.length ≤ inner.length := hstatements.length_le
  have hlong : k.left.length + 1 < t.unread.length := by
    rw [hunread, List.length_cons]
    omega
  obtain ⟨t₀, rfl, hother⟩ := (oneAhead_heading.alike s (Nat.le_refl _)).ok_of_lt hhead (by omega)
  -- the opening brace itself stands in front of the fork
  obtain ⟨first, rest, hfirst⟩ : ∃ first rest, t₀.unread = first :: rest := by
    refine List.exists_cons_of_ne_nil fun hnil => ?_
    rw [State.inFront_unread_of_nil hnil, List.length_cons] at hlong
    omega
  have hunread' := State.inFront_unread_of_cons hfirst (k.token :: k.left)
  rw [hunread] at hunread'
  obtain ⟨rfl, rfl⟩ := List.cons_eq_cons.mp hunread'
  obtain ⟨u₀, hu₀, hrest⟩ := Unbroken.fork
    (s := (t₀.openScope (h.variables t₀)).consume opening rest) hstatements hlt
  exact ⟨t₀, u₀, rfl, hu₀, hother, opening, _, State.inFront_unread_of_cons hfirst _, hopening,
    hrest⟩

/-- A bare `return` that comes next ends the procedure. -/
theorem procedure_of_bareReturn (keyword : Token) (hread : ReadsBody s h t es u) (hs : s.Settled)
    {ret semi closing : Token} {skipped rest : List Token}
    (hret : ret.kind = .returnWord) (hsemi : semi.kind = .semicolon)
    (hclosing : closing.kind = .rightBrace) (hskipped : Balanced skipped)
    (hunread : u.unread = ret :: semi :: (skipped ++ closing :: rest)) :
    ∃ read, procedure block keyword s =
      .ok (h.name, h.proc keyword (es ++ [.returnStatement ret.pos none]) u)
        { (u.closeScope (t.entriesFor (h.variables t))).complete with
          read := read
          unread := rest
          braceDepth := u.braceDepth - 1 } := by
  obtain ⟨hhead, opening, inner, hopen, hopening, hstatements⟩ := hread
  have ht : t.Settled := ((relates_heading (L := braceLaw)).ok hs hhead).settled hs
  have hinside : ((t.openScope (h.variables t)).consume opening inner).Settled :=
    braceLaw.good_consume (braceLaw.good_openScope _ ht) hopen
  have hreturn := body_of_bareReturn hret hsemi hclosing hskipped
    (hstatements.settled hinside).closed hunread
  exact ⟨_, procedure_of_body hhead hopen hopening (hstatements.then_body hinside hreturn)⟩

end ReadsBody

/-- A procedure that is read is declared, and gives a statement. -/
theorem statement_of_procedure {rest : List Token} {name : Token} {proc : Proc Expr} {v : State}
    (hunread : s.unread = keyword :: rest) (hkeyword : keyword.kind = .procWord)
    (hname : name.lexeme = proc.name)
    (hproc : procedure block keyword (s.consume keyword rest) = .ok (name, proc) v) :
    statement s =
      (some (.procDef proc), v.announce (fun id => .procedure ⟨id, proc⟩) name.pos) := by
  refine statement_of_ok hunread (by rw [hkeyword]; decide) ?_
  have hwarn := warnIfShadowed_declareNext v (fun id => .procedure ⟨id, proc⟩) "procedure" name
    rfl hname
  unfold statementFrom
  simp only [hkeyword]
  unfold procStatement
  rw [bind_of_ok hproc]
  exact bind_of_ok hwarn

theorem implProc_of_procedure {rest : List Token} {name : Token} {proc : Proc Expr} {v : State}
    (hunread : s.unread = keyword :: rest) (hkeyword : keyword.kind = .procWord)
    (hproc : procedure block keyword (s.consume keyword rest) = .ok (name, proc) v) :
    implProc block s = .ok proc v := by
  unfold implProc
  rw [bind_of_ok (expect_of_cons hunread hkeyword), bind_of_ok hproc]
  rfl

end Procedures
end Parse

open Parse

/-- A declaration looks at no token. -/
theorem State.announce_read (s : State) (read : List Token) (symbol : Nat → Symbol)
    (pos : Position) :
    State.announce { s with read := read } symbol pos =
      { s.announce symbol pos with read := read } := by
  unfold announce report declareNext endReported
  split
  · split <;> rfl
  · rfl

theorem State.unread_announce (s : State) (symbol : Nat → Symbol) (pos : Position) :
    (s.announce symbol pos).unread = s.unread := by
  unfold announce report
  split
  · split <;> rfl
  · rfl

/--
Behind a bare `return` that stands in the body of a procedure itself, whatever balanced tokens
follow up to the closing brace make no difference.  If the procedure is read up to the `return`,
then with other tokens in their place, or none, the same procedure is read, as a statement or in an
impl block, and the state behind it is the same but for the tokens that have been read: its
diagnostics, its tables, its counter of open braces and the tokens left unread.
-/
theorem bareReturn_inert {s t u : State} {h : Heading} {es : List Expr}
    {keyword ret semi closing : Token} {front skipped skipped' rest : List Token} (hs : s.Settled)
    (hkeyword : keyword.kind = .procWord) (hret : ret.kind = .returnWord)
    (hsemi : semi.kind = .semicolon) (hclosing : closing.kind = .rightBrace)
    (hskipped : Balanced skipped) (hskipped' : Balanced skipped')
    (hunread : s.unread = keyword :: (front ++ ret :: semi :: (skipped ++ closing :: rest)))
    (hread : ReadsBody (s.consume keyword (front ++ ret :: semi :: (skipped ++ closing :: rest)))
      h t es u)
    (hu : u.unread = ret :: semi :: (skipped ++ closing :: rest)) :
    ∃ proc, proc.body = es ++ [.returnStatement ret.pos none] ∧
      (∃ v read, v.unread = rest ∧ statement s = (some (.procDef proc), v) ∧
        statement { s with
            unread := keyword :: (front ++ ret :: semi :: (skipped' ++ closing :: rest)) } =
          (some (.procDef proc), { v with read := read })) ∧
      ∃ v read, v.unread = rest ∧ implProc block s = .ok proc v ∧
        implProc block { s with
            unread := keyword :: (front ++ ret :: semi :: (skipped' ++ closing :: rest)) } =
          .ok proc { v with read := read } := by
  let k : Fork :=
    ⟨ret, semi :: (skipped ++ closing :: rest), semi :: (skipped' ++ closing :: rest)⟩
  have hlt : k.left.length < u.unread.length := by
    rw [hu]
    exact Nat.lt_succ_self _
  obtain ⟨t₀, u₀, rfl, rfl, hother⟩ :=
    ReadsBody.fork (k := k) (s := s.consume keyword front) hread hlt
  have hnil : u₀.unread = [] := List.append_left_eq_self.mp hu
  have hsettled := braceLaw.good_consume hs hunread
  obtain ⟨read, hleft⟩ := hread.procedure_of_bareReturn keyword hsettled hret hsemi
    hclosing hskipped hu
  obtain ⟨read', hright⟩ := hother.procedure_of_bareReturn keyword
    ⟨hsettled.depth, hsettled.closed⟩ hret hsemi hclosing hskipped'
    (State.inFront_unread_of_nil hnil _)
  have hstatement := statement_of_procedure (s := { s with
    unread := keyword :: (front ++ ret :: semi :: (skipped' ++ closing :: rest)) }) rfl hkeyword rfl
    hright
  refine ⟨_, rfl, ⟨_, read', State.unread_announce _ _ _,
    statement_of_procedure hunread hkeyword rfl hleft, ?_⟩, _, read', rfl,
    implProc_of_procedure hunread hkeyword hleft, implProc_of_procedure rfl hkeyword hright⟩
  rw [hstatement, ← State.announce_read]
  rfl

/-- A block with an invalid character in it and half of a declaration follow a bare `return`. -/
theorem bareReturn_inert_malformed :
    ∃ (s u : State) (keyword ret semi closing : Token) (front skipped rest : List Token),
      s.Settled ∧ keyword.kind = .procWord ∧ ret.kind = .returnWord ∧ semi.kind = .semicolon ∧
      closing.kind = .rightBrace ∧ Balanced skipped ∧
      s.unread = keyword :: (front ++ ret :: semi :: (skipped ++ closing :: rest)) ∧
      (∃ h t es, ReadsBody
        (s.consume keyword (front ++ ret :: semi :: (skipped ++ closing :: rest))) h t es u) ∧
      u.unread = ret :: semi :: (skipped ++ closing :: rest) ∧
      ∃ proc v read, statement s = (some (.procDef proc), v) ∧
        statement { s with unread := keyword :: (front ++ ret :: semi :: closing :: rest) } =
          (some (.procDef proc), { v with read := read }) := by
  let token (kind : TokenKind) (lexeme : String) (column : Nat) : Token :=
    ⟨kind, lexeme, ⟨"p", 0, column⟩, if kind = .literal then .number else .none⟩
  let front := [token .identifier "f" 5, token .leftParen "(" 6, token .rightParen ")" 7,
    token .leftBrace "\x7b" 9, token .literal "1" 11, token .semicolon ";" 12]
  let skipped := [token .leftBrace "\x7b" 22, token .invalid "@" 24, token .rightBrace "\x7d" 26,
    token .letWord "let" 28]
  let rest := [token .literal "2" 34]
  let keyword := token .procWord "proc" 0
  let ret := token .returnWord "return" 14
  let semi := token .semicolon ";" 20
  let closing := token .rightBrace "\x7d" 32
  let s : State := {
    unread := keyword :: (front ++ ret :: semi :: (skipped ++ closing :: rest))
    finish := ⟨"p", 0, 35⟩ }
  have hskipped : Balanced skipped :=
    (Balanced.enclose (.plain (t := token .invalid "@" 24) nofun nofun) rfl rfl).append
      (.plain (t := token .letWord "let" 28) nofun nofun)
  have hread : ReadsBody
      (s.consume keyword (front ++ ret :: semi :: (skipped ++ closing :: rest))) _ _ _ _ :=
    ⟨rfl, _, _, rfl, rfl, .cons rfl rfl (.cons rfl rfl (.nil _))⟩
  obtain ⟨proc, -, ⟨v, read, -, hleft, hright⟩, -⟩ := bareReturn_inert (s := s) ⟨rfl, rfl⟩ rfl rfl
    rfl rfl hskipped .nil rfl hread rfl
  exact ⟨s, _, keyword, ret, semi, closing, front, skipped, rest, ⟨rfl, rfl⟩, rfl, rfl, rfl, rfl,
    hskipped, rfl, ⟨_, _, _, hread⟩, rfl, proc, v, read, hleft, hright⟩

end ScriptFront
