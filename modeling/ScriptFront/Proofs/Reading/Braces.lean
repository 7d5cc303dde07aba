import ScriptFront.Proofs.Reading.Balance
import ScriptFront.Proofs.Reading.Progress

/-!
# Braces are counted right through every error

The counter of open braces is that of the tokens read.  A statement that fails may have read braces
that belong to it, or the brace that closes the block around it; recovery tells the two apart by the
counter.

**Results.**

* `ends_statement`: the three ways in which a statement ends.
* `block_reads`: a block that is read is read from its opening brace to the matching one.
* `parseProgram_braces`: the whole account.
-/

namespace ScriptFront
namespace State

/-- The counter of open braces is that of the tokens read, and there is no block to leave. -/
structure Settled (s : State) : Prop where
  depth : s.braceDepth = s.read.reverse.foldl depthAfter 0
  closed : s.closedBlocks = 0

/-- Balanced tokens have been read, and there are as many blocks to leave as before. -/
def Even (s t : State) : Prop :=
  ∃ ts, s.Reads ts t ∧ Balanced ts ∧ t.closedBlocks = s.closedBlocks

/-- Reading has stopped inside of braces that it opened, or at the brace that closes the block
around it. -/
inductive Broken (s t : State) : Prop
  | inside (ts : List Token) : s.Reads ts t → Above 0 ts → t.closedBlocks = s.closedBlocks →
      Broken s t
  | beyond (ts : List Token) (closing : Token) : s.Reads (ts ++ [closing]) t → Balanced ts →
      closing.kind = .rightBrace → t.closedBlocks = s.closedBlocks → Broken s t

/-- Between two states no brace has been closed that was open in front of them. -/
def StaysAbove (s t : State) : Prop :=
  ∃ ts, s.Reads ts t ∧ Above 0 ts ∧ t.closedBlocks = s.closedBlocks

/--
How a statement ends: with the braces that were open before it; with the brace that closes the block
around it, which is then to be left; or with the input.
-/
inductive Ends (s t : State) : Prop
  | whole : t.closedBlocks = 0 → t.braceDepth = s.braceDepth → (0 < s.braceDepth → s.Even t) →
      Ends s t
  | closing (ts : List Token) (c : Token) : s.Reads (ts ++ [c]) t → Balanced ts →
      c.kind = .rightBrace → t.closedBlocks = 1 → t.braceDepth + 1 = s.braceDepth → Ends s t
  | exhausted : t.unread = [] → t.closedBlocks = 0 → s.braceDepth ≤ t.braceDepth →
      (0 < s.braceDepth → s.Broken t) → Ends s t

section Counting

theorem Reads.depth_eq {s t : State} {ts : List Token} (h : s.Reads ts t)
    (hs : s.braceDepth = s.read.reverse.foldl depthAfter 0) :
    t.braceDepth = t.read.reverse.foldl depthAfter 0 := by
  rw [h.depth, h.read, List.reverse_append, List.reverse_reverse, List.foldl_append, hs]

theorem Later.settled {s t : State} (h : s.Later t) (hs : s.Settled) (ht : t.closedBlocks = 0) :
    t.Settled := by
  obtain ⟨ts, hts⟩ := h.reads
  exact ⟨hts.depth_eq hs.depth, ht⟩

theorem Reads.braceDepth_of_above {s t : State} {ts : List Token} (h : s.Reads ts t)
    (habove : Above 0 ts) : (t.braceDepth : Int) = s.braceDepth + balance ts := by
  rw [h.depth]
  exact foldl_depthAfter (habove.mono (Int.natCast_nonneg _))

theorem Reads.braceDepth_of_closing {s t : State} {ts : List Token} {c : Token}
    (h : s.Reads (ts ++ [c]) t) (hbalanced : Balanced ts) (hc : c.kind = .rightBrace) :
    t.braceDepth = s.braceDepth - 1 := by
  rw [h.depth, List.foldl_append, hbalanced.foldl_depthAfter]
  simp [depthAfter, hc]

end Counting

namespace Even

theorem refl (s : State) : s.Even s :=
  ⟨[], .refl s, .nil, rfl⟩

theorem trans {s t u : State} (hst : s.Even t) (htu : t.Even u) : s.Even u := by
  obtain ⟨ts, hts, hbalanced, hclosed⟩ := hst
  obtain ⟨us, hus, hbalanced', hclosed'⟩ := htu
  exact ⟨ts ++ us, hts.trans hus, hbalanced.append hbalanced', hclosed'.trans hclosed⟩

theorem of_same {s t : State} (hunread : t.unread = s.unread) (hread : t.read = s.read)
    (hdepth : t.braceDepth = s.braceDepth) (hclosed : t.closedBlocks = s.closedBlocks) :
    s.Even t :=
  ⟨[], ⟨hunread.symm, hread, hdepth⟩, .nil, hclosed⟩

theorem report (s : State) (p : Problem) : s.Even (s.report p) := by
  unfold State.report
  split
  · exact .refl s
  · exact of_same rfl rfl rfl rfl

theorem openScope (s : State) (bindings : List (Binding Expr)) : s.Even (s.openScope bindings) :=
  of_same rfl rfl rfl rfl

theorem closeScope (s : State) (entries : List (Entry (Binding Expr))) :
    s.Even (s.closeScope entries) :=
  of_same rfl rfl rfl rfl

theorem braceDepth {s t : State} (h : s.Even t) : t.braceDepth = s.braceDepth := by
  obtain ⟨ts, hts, hbalanced, _⟩ := h
  rw [hts.depth, hbalanced.foldl_depthAfter]

theorem closedBlocks {s t : State} (h : s.Even t) : t.closedBlocks = s.closedBlocks := by
  obtain ⟨_, _, _, hclosed⟩ := h
  exact hclosed

theorem settled {s t : State} (h : s.Even t) (hs : s.Settled) : t.Settled := by
  obtain ⟨ts, hts, _, hclosed⟩ := h
  exact ⟨hts.depth_eq hs.depth, hclosed.trans hs.closed⟩

theorem staysAbove {s t : State} (h : s.Even t) : s.StaysAbove t := by
  obtain ⟨ts, hts, hbalanced, hclosed⟩ := h
  exact ⟨ts, hts, hbalanced.above, hclosed⟩

theorem consume {s : State} {t : Token} {rest : List Token} (h : s.unread = t :: rest)
    (hopen : t.kind ≠ .leftBrace) (hclose : t.kind ≠ .rightBrace) : s.Even (s.consume t rest) :=
  ⟨[t], .consume h, .plain hopen hclose, rfl⟩

/-- What stands between two matching braces. -/
theorem enclose {s u : State} {opening closing : Token} {rest rest' : List Token}
    (h : s.unread = opening :: rest) (hopen : opening.kind = .leftBrace)
    (hu : (s.consume opening rest).Even u) (hrest : u.unread = closing :: rest')
    (hclose : closing.kind = .rightBrace) : s.Even (u.consume closing rest') := by
  obtain ⟨ts, hts, hbalanced, hclosed⟩ := hu
  have hreads := ((Reads.consume h).trans hts).trans (Reads.consume hrest)
  exact ⟨[opening] ++ ts ++ [closing], hreads, hbalanced.enclose hopen hclose, hclosed⟩

end Even

namespace StaysAbove

theorem of_even {s t u : State} (hst : s.Even t) (htu : t.StaysAbove u) : s.StaysAbove u := by
  obtain ⟨ts, hts, hbalanced, hclosed⟩ := hst
  obtain ⟨us, hus, habove, hclosed'⟩ := htu
  refine ⟨ts ++ us, hts.trans hus, ?_, hclosed'.trans hclosed⟩
  rw [above_append, hbalanced.total]
  exact ⟨hbalanced.above, habove⟩

/-- What stops inside of a block stays inside of the block around it. -/
theorem enclose {s u : State} {opening : Token} {rest : List Token}
    (h : s.unread = opening :: rest) (hopen : opening.kind = .leftBrace)
    (hu : (s.consume opening rest).StaysAbove u) : s.StaysAbove u := by
  obtain ⟨ts, hts, habove, hclosed⟩ := hu
  refine ⟨[opening] ++ ts, (Reads.consume h).trans hts, ?_, hclosed⟩
  rw [List.singleton_append, above_cons, Token.brace_of_open hopen]
  exact ⟨le_refl _, habove.mono (by decide)⟩

theorem of_same {s t u : State} (h : s.StaysAbove t) (hunread : u.unread = t.unread)
    (hread : u.read = t.read) (hdepth : u.braceDepth = t.braceDepth)
    (hclosed : u.closedBlocks = t.closedBlocks) : s.StaysAbove u := by
  obtain ⟨ts, hts, habove, hclosed'⟩ := h
  exact ⟨ts, ⟨hunread ▸ hts.unread, hread.trans hts.read, hdepth.trans hts.depth⟩, habove,
    hclosed.trans hclosed'⟩

theorem closeScope {s t : State} (h : s.StaysAbove t) (entries : List (Entry (Binding Expr))) :
    s.StaysAbove (t.closeScope entries) :=
  h.of_same rfl rfl rfl rfl

theorem braceDepth_le {s t : State} (h : s.StaysAbove t) : s.braceDepth ≤ t.braceDepth := by
  obtain ⟨ts, hts, habove, _⟩ := h
  have hdepth := hts.braceDepth_of_above habove
  have hnonneg := habove.balance_nonneg
  omega

theorem closedBlocks {s t : State} (h : s.StaysAbove t) : t.closedBlocks = s.closedBlocks := by
  obtain ⟨_, _, _, hclosed⟩ := h
  exact hclosed

theorem broken {s t : State} (h : s.StaysAbove t) : s.Broken t := by
  obtain ⟨ts, hts, habove, hclosed⟩ := h
  exact .inside ts hts habove hclosed

end StaysAbove

theorem Even.broken {s t : State} (h : s.Even t) : s.Broken t :=
  h.staysAbove.broken

namespace Broken

theorem of_even {s t u : State} (hst : s.Even t) (htu : t.Broken u) : s.Broken u := by
  cases htu with
  | inside us hus habove hclosed =>
    exact (StaysAbove.of_even hst ⟨us, hus, habove, hclosed⟩).broken
  | beyond us c hus hbalanced' hc hclosed' =>
    obtain ⟨ts, hts, hbalanced, hclosed⟩ := hst
    refine .beyond (ts ++ us) c ?_ (hbalanced.append hbalanced') hc (hclosed'.trans hclosed)
    rw [List.append_assoc]
    exact hts.trans hus

/-- Any token may be the one at which reading stops. -/
theorem consume {s : State} {t : Token} {rest : List Token} (h : s.unread = t :: rest) :
    s.Broken (s.consume t rest) := by
  by_cases hclose : t.kind = .rightBrace
  · exact .beyond [] t (.consume h) .nil hclose rfl
  · refine .inside [t] (.consume h) ?_ rfl
    by_cases hopen : t.kind = .leftBrace
    · simp [Token.brace_of_open hopen]
    · simp [Token.brace_of_plain hopen hclose]

/-- What stops behind an opening brace stays inside of it, or has just closed it. -/
theorem enclose {s u : State} {opening : Token} {rest : List Token}
    (h : s.unread = opening :: rest) (hopen : opening.kind = .leftBrace)
    (hu : (s.consume opening rest).Broken u) : s.Broken u := by
  cases hu with
  | inside ts hts habove hclosed =>
    exact (StaysAbove.enclose h hopen ⟨ts, hts, habove, hclosed⟩).broken
  | beyond ts c hts hbalanced hc hclosed =>
    exact .inside ([opening] ++ (ts ++ [c])) ((Reads.consume h).trans hts)
      (hbalanced.enclose hopen hc).above hclosed

theorem of_same {s t u : State} (h : s.Broken t) (hunread : u.unread = t.unread)
    (hread : u.read = t.read) (hdepth : u.braceDepth = t.braceDepth)
    (hclosed : u.closedBlocks = t.closedBlocks) : s.Broken u := by
  cases h with
  | inside ts hts habove hclosed' =>
    have hstays : s.StaysAbove t := ⟨ts, hts, habove, hclosed'⟩
    exact (hstays.of_same hunread hread hdepth hclosed).broken
  | beyond ts c hts hbalanced hc hclosed' =>
    exact .beyond ts c ⟨hunread ▸ hts.unread, hread.trans hts.read, hdepth.trans hts.depth⟩
      hbalanced hc (hclosed.trans hclosed')

/-- The brace of a block that is open is not closed while the counter stays as high. -/
theorem staysAbove {s t : State} (h : s.Broken t) (hpos : 0 < s.braceDepth)
    (hle : s.braceDepth ≤ t.braceDepth) : s.StaysAbove t := by
  cases h with
  | inside ts hts habove hclosed => exact ⟨ts, hts, habove, hclosed⟩
  | beyond ts c hts hbalanced hc _ =>
    have hdepth := hts.braceDepth_of_closing hbalanced hc
    omega

theorem report {s t : State} (h : s.Broken t) (p : Problem) : s.Broken (t.report p) := by
  unfold State.report
  split
  · exact h
  · exact h.of_same rfl rfl rfl rfl

theorem closeScope {s t : State} (h : s.Broken t) (entries : List (Entry (Binding Expr))) :
    s.Broken (t.closeScope entries) :=
  h.of_same rfl rfl rfl rfl

end Broken
end State

/-- Readers that succeed read balanced tokens; those that fail stop at the end of the block around
them at the latest, and inside of it where the input ends. -/
def braceLaw : StepLaw where
  good := State.Settled
  ok := State.Even
  err p s t := s.Broken t ∧ (p.cause.isUnexpectedEnd → s.StaysAbove t)
  refl := .refl
  trans := .trans
  err_of_ok h := ⟨h.broken, fun _ => h.staysAbove⟩
  ok_err h h' := ⟨.of_even h h'.1, fun hp => .of_even h (h'.2 hp)⟩
  good_of_ok hs h := h.settled hs
  good_consume hs h := ⟨(State.Reads.consume h).depth_eq hs.depth, hs.closed⟩
  good_openScope _ hs := ⟨hs.depth, hs.closed⟩
  read := .consume
  stop hp h := ⟨.consume h, fun hend => absurd hend (Bool.eq_false_iff.mp hp)⟩
  enclose := .enclose
  enclose_err h hopen h' := ⟨.enclose h hopen h'.1, fun hp => .enclose h hopen (h'.2 hp)⟩
  report := .report
  declare _ _ _ := .of_same rfl rfl rfl rfl
  rebind _ _ _ := .of_same rfl rfl rfl rfl
  addProc _ h _ := h.trans (.of_same rfl rfl rfl rfl)
  complete _ := .of_same rfl rfl rfl rfl
  scope h := (State.Even.openScope _ _).trans (h.trans (.closeScope _ _))
  scope_err h := ⟨.of_even (.openScope _ _) (h.1.closeScope _),
    fun hp => .of_even (.openScope _ _) ((h.2 hp).closeScope _)⟩

section Recovering

namespace State

/-- After balanced tokens a statement may end. -/
theorem Even.ends {s t : State} (h : s.Even t) (hs : s.Settled) : s.Ends t :=
  .whole (h.settled hs).closed h.braceDepth fun _ => h

/-- Skipping to a boundary from inside of the braces that a statement opened. -/
theorem ends_skipToBoundary {s t : State} {ts : List Token} (hts : s.Reads ts t)
    (habove : Above 0 ts) (hclosed : t.closedBlocks = 0) (hs : s.Settled) :
    s.Ends (t.skipToBoundary (t.braceDepth - s.braceDepth)) := by
  have hdepth := hts.braceDepth_of_above habove
  have hpos := habove.balance_nonneg
  obtain ⟨hskipped, hend⟩ := splitAtBoundary_above (t.braceDepth - s.braceDepth) t.unread
  have hcast : ((t.braceDepth - s.braceDepth : Nat) : Int) = balance ts := by omega
  rw [hcast] at hskipped hend
  have hreads : s.Reads (ts ++ (splitAtBoundary (t.braceDepth - s.braceDepth) t.unread).1)
      (t.skipToBoundary (t.braceDepth - s.braceDepth)) :=
    hts.trans (.consumeAll (splitAtBoundary_append _ t.unread).symm)
  have hall : Above 0 (ts ++ (splitAtBoundary (t.braceDepth - s.braceDepth) t.unread).1) := by
    rw [above_append, zero_add]
    exact ⟨habove, hskipped⟩
  have hfinal := hreads.braceDepth_of_above hall
  have hclosed' : t.closedBlocks = s.closedBlocks := hclosed.trans hs.closed.symm
  rcases hend with hnil | htotal
  · refine .exhausted hnil hclosed ?_ fun _ => .inside _ hreads hall hclosed'
    have hle := hall.balance_nonneg
    omega
  · rw [← balance_append] at htotal
    have heven : s.Even (t.skipToBoundary (t.braceDepth - s.braceDepth)) :=
      ⟨_, hreads, ⟨hall, htotal⟩, hclosed'⟩
    exact heven.ends hs

/-- After a failure, recovery ends the statement in one of three ways. -/
theorem Broken.ends_recover {s t : State} (h : s.Broken t) (hs : s.Settled) (p : Problem) :
    s.Ends (t.recover s.braceDepth p) := by
  have hreport := h.report p
  unfold recover
  simp only
  generalize t.report p = u at hreport
  cases hreport with
  | inside ts hts habove hclosed =>
    have hdepth := hts.braceDepth_of_above habove
    have hpos := habove.balance_nonneg
    rw [if_neg (by omega)]
    exact ends_skipToBoundary hts habove (hclosed.trans hs.closed) hs
  | beyond ts c hts hbalanced hc hclosed =>
    have hdepth := hts.braceDepth_of_closing hbalanced hc
    by_cases hzero : s.braceDepth = 0
    · rw [if_neg (by omega), hdepth, hzero]
      have htop : u.braceDepth = 0 := by omega
      obtain ⟨hskipped, hend⟩ := splitAtBoundary_above 0 u.unread
      have hskip : u.Reads (splitAtBoundary 0 u.unread).1 (u.skipToBoundary 0) :=
        .consumeAll (splitAtBoundary_append 0 u.unread).symm
      have hfinal := hskip.braceDepth_of_above hskipped
      rcases hend with hnil | htotal
      · exact .exhausted hnil (hclosed.trans hs.closed) (by omega) fun hpos => by omega
      · refine .whole (hclosed.trans hs.closed) ?_ fun hpos => by omega
        show (u.skipToBoundary 0).braceDepth = s.braceDepth
        omega
    · rw [if_pos (by omega)]
      refine .closing ts c ⟨hts.unread, hts.read, hts.depth⟩ hbalanced hc ?_ ?_
      · show s.braceDepth - u.braceDepth = 1
        omega
      · show u.braceDepth + 1 = s.braceDepth
        omega

theorem Ends.closedBlocks_le {s t : State} (h : s.Ends t) : t.closedBlocks ≤ 1 := by
  cases h with
  | whole hclosed _ _ => omega
  | closing _ _ _ _ _ hclosed _ => omega
  | exhausted _ hclosed _ _ => omega

end State

end Recovering

namespace Parse

open StepLaw

section Blocks

variable {b : Bool → Parse (List Expr)}

/-- A statement whose blocks keep the law ends in one of three ways. -/
theorem ends_statementWith (hb : ∀ ofProc, braceLaw.Relates (b ofProc) (b ofProc)) {s : State}
    (hs : s.Settled) : s.Ends (statementWith b s).2 := by
  have h := relates_optionalStatement hb
  unfold statementWith
  cases hr : optionalStatement b s with
  | ok e t => exact State.Even.ends (h.ok hs hr) hs
  | error p t => exact State.Broken.ends_recover (h.error hs hr).2.1 hs p

theorem closes_skipToClose {s t : State} (hst : s.Even t) :
    braceLaw.Closes s (skipToClose t) := by
  have happend := splitAtClose_append 0 t.unread
  obtain ⟨hopen, hclosed⟩ := splitAtClose_above 0 t.unread
  unfold skipToClose
  cases hsplit : splitAtClose 0 t.unread with
  | mk skipped rest? =>
    rw [hsplit] at happend hopen hclosed
    cases rest? with
    | none =>
      have habove : s.StaysAbove (t.consumeAll skipped []) :=
        .of_even hst ⟨skipped, .consumeAll happend.symm, hopen rfl, rfl⟩
      exact ⟨nofun, habove.broken, fun _ => habove⟩
    | some rest =>
      obtain ⟨us, closing, hskipped, hclosing, habove, htotal⟩ := hclosed rfl
      rw [Nat.cast_zero, zero_add] at htotal
      have hunread : t.unread = us ++ closing :: rest := by
        rw [← happend]
        simp only at hskipped
        rw [hskipped, Option.getD_some, List.append_assoc, List.singleton_append]
      refine ⟨t.consumeAll us (closing :: rest), closing, rest, ?_, rfl, hclosing, ?_⟩
      · exact hst.trans ⟨us, .consumeAll hunread, ⟨habove, htotal⟩, rfl⟩
      · simp only at hskipped
        simp [State.consumeAll, State.consume, hskipped]

/-- A statement that has read the brace that closes its block leaves the block at once. -/
theorem bodyRest_of_one (others : Bool → Parse (List Expr)) (ofProc : Bool) (e : Option Expr)
    {s : State} (h : s.closedBlocks = 1) :
    bodyRest others ofProc e s = .ok e.toList { s with closedBlocks := 0 } := by
  have hleave : leaveClosedBlock s = .ok true { s with closedBlocks := 0 } := by
    simp [leaveClosedBlock, h]
  unfold bodyRest
  rw [bind_of_ok hleave]
  rfl

theorem bodyRest_of_zero (others : Bool → Parse (List Expr)) (ofProc : Bool) (e : Option Expr)
    {s : State} (h : s.closedBlocks = 0) :
    bodyRest others ofProc e s = (if ofProc && isBareReturn e then do
        skipToClose
        return e.toList
      else
        return e.toList ++ (← others ofProc)) s := by
  have hleave : leaveClosedBlock s = .ok false s := by
    simp [leaveClosedBlock, h]
  unfold bodyRest
  rw [bind_of_ok hleave]
  rfl

/-- What follows a statement that leaves no block. -/
theorem closes_bodyRest {others : Bool → Parse (List Expr)} {s t : State} (ofProc : Bool)
    (e : Option Expr) (hzero : t.closedBlocks = 0)
    (hnil : ∀ v, v.unread = [] → others ofProc v = failAtEnd (.kind .rightBrace) v)
    (hothers : ∀ v, s.Even v → braceLaw.Closes s (others ofProc v))
    (ht : s.Even t ∨ t.unread = [] ∧ s.StaysAbove t) :
    braceLaw.Closes s (bodyRest others ofProc e t) := by
  rw [bodyRest_of_zero others ofProc e hzero]
  split
  · refine (closes_bind_pure ⟨rfl, ?_⟩).2
    rcases ht with hst | ⟨hunread, habove⟩
    · exact closes_skipToClose hst
    · have hsame : s.StaysAbove (t.consumeAll [] []) := habove.of_same hunread.symm rfl rfl rfl
      unfold skipToClose
      rw [hunread]
      exact ⟨nofun, hsame.broken, fun _ => hsame⟩
  · refine (closes_bind_pure ⟨rfl, ?_⟩).2
    rcases ht with hst | ⟨hunread, habove⟩
    · exact hothers t hst
    · rw [hnil t hunread]
      exact ⟨nofun, habove.broken, fun _ => habove⟩

theorem closes_bodyStep {r : State → Option Expr × State} {others : Bool → Parse (List Expr)}
    {s t : State} (ofProc : Bool) (hs : s.Settled) (hpos : 0 < s.braceDepth) (hst : s.Even t)
    (hr : ∀ v : State, v.Settled → v.Ends (r v).2)
    (hnil : ∀ v, v.unread = [] → others ofProc v = failAtEnd (.kind .rightBrace) v)
    (hothers : ∀ v, s.Even v → braceLaw.Closes s (others ofProc v)) :
    braceLaw.Closes s (bodyStep r others ofProc t) := by
  have hdepth := hst.braceDepth
  unfold bodyStep
  cases hunread : t.unread with
  | nil =>
    rw [bind_of_ok (peek_of_nil hunread)]
    exact ⟨nofun, braceLaw.err_of_ok hst⟩
  | cons c rest =>
    rw [bind_of_ok (peek_of_cons hunread)]
    by_cases hk : c.kind = .rightBrace
    · simp only [if_pos hk]
      rw [bind_of_ok (advance_of_cons hunread)]
      exact ⟨t, c, rest, hst, hunread, hk, rfl⟩
    · simp only [if_neg hk]
      have hends := hr t (hst.settled hs)
      have hstatement : always r t = .ok (r t).1 (r t).2 := rfl
      rw [bind_of_ok hstatement]
      generalize (r t).1 = e at *
      generalize (r t).2 = u at *
      cases hends with
      | whole hzero _ heven =>
        exact closes_bodyRest ofProc e hzero hnil hothers
          (.inl (hst.trans (heven (by omega))))
      | exhausted hend hzero hle hbroken =>
        have habove := (hbroken (by omega)).staysAbove (by omega) hle
        exact closes_bodyRest ofProc e hzero hnil hothers (.inr ⟨hend, .of_even hst habove⟩)
      | closing ts c hts hbalanced hc hone hless =>
        rw [bodyRest_of_one others ofProc e hone]
        -- The state in front of the closing brace is the one after it with that brace put back.
        refine ⟨{ u with
          read := ts.reverse ++ t.read
          unread := c :: u.unread
          braceDepth := t.braceDepth
          closedBlocks := 0 }, c, u.unread, ?_, rfl, hc, ?_⟩
        · refine hst.trans ⟨ts, ⟨?_, rfl, (hbalanced.foldl_depthAfter _).symm⟩, hbalanced, ?_⟩
          · rw [hts.unread, List.append_assoc, List.singleton_append]
          · exact (hst.settled hs).closed.symm
        · have hread := hts.read
          have hbrace : u.braceDepth = depthAfter t.braceDepth c := by
            rw [hts.depth, List.foldl_append, hbalanced.foldl_depthAfter]
            rfl
          simp only [State.consume, ← hbrace]
          rw [List.reverse_append, List.append_assoc] at hread
          simp only [List.reverse_cons, List.reverse_nil, List.nil_append,
            List.singleton_append] at hread
          rw [← hread]

/-- A block is read from its opening brace to the matching one, whatever stands in it. -/
theorem relates_braced_of_closes {p q : Bool → Parse (List Expr)} {ofProc : Bool}
    (h : ∀ {s : State}, s.Settled → 0 < s.braceDepth →
      p ofProc s = q ofProc s ∧ braceLaw.Closes s (p ofProc s)) :
    braceLaw.Relates (braced p ofProc) (braced q ofProc) := by
  have hbody := relates_braced (L := braceLaw) (p := p ofProc) (q := q ofProc) (f := pure)
    (g := pure) (fun {s opening rest} hs hunread hopening =>
      h (braceLaw.good_consume hs hunread) (by simp [State.consume, depthAfter, hopening]))
    fun es => relates_pure es
  simp only [bind_pure] at hbody
  exact hbody

theorem closes_bodyUpTo (n : Nat) (ofProc : Bool) {s t : State} (hs : s.Settled)
    (hpos : 0 < s.braceDepth) (hst : s.Even t) : braceLaw.Closes s (bodyUpTo n ofProc t) := by
  -- The braces are even from the start `s` of the block to every statement in it.
  induction n generalizing ofProc s t with
  | zero => exact ⟨nofun, braceLaw.err_of_ok hst⟩
  | succ n ih =>
    have hb : ∀ o, braceLaw.Relates (braced (bodyUpTo n) o) (braced (bodyUpTo n) o) :=
      fun o => relates_braced_of_closes fun hs hpos => ⟨rfl, ih o hs hpos (.refl _)⟩
    refine closes_bodyStep ofProc hs hpos hst (fun v hv => ends_statementWith hb hv) ?_
      fun v hv => ih ofProc hs hpos hv
    intro v hv
    cases n with
    | zero => rfl
    | succ n =>
      show bodyStep _ _ ofProc v = _
      unfold bodyStep
      rw [bind_of_ok (peek_of_nil hv)]

theorem relates_block (ofProc : Bool) : braceLaw.Relates (block ofProc) (block ofProc) :=
  relates_braced_of_closes fun hs hpos => ⟨rfl, closes_bodyUpTo _ ofProc hs hpos (.refl _)⟩

theorem ends_statement {s : State} (hs : s.Settled) : s.Ends (statement s).2 :=
  ends_statementWith relates_block hs

/-- A block that is read is read from its opening brace to the matching one. -/
theorem block_reads {s u : State} {ofProc : Bool} {es : List Expr} (hs : s.Settled)
    (h : block ofProc s = .ok es u) :
    ∃ opening inner closing, s.Reads (opening :: inner ++ [closing]) u ∧
      opening.kind = .leftBrace ∧ closing.kind = .rightBrace ∧ Balanced inner ∧
      u.closedBlocks = 0 := by
  obtain ⟨opening, t, hopening, hbody⟩ := bind_eq_ok_iff.mp h
  obtain ⟨hk, rest, hunread, rfl⟩ := expect_eq_ok_iff.mp hopening
  have hpos : 0 < (s.consume opening rest).braceDepth := by
    simp [State.consume, depthAfter, hk]
  have hcloses := closes_bodyUpTo rest.length ofProc (braceLaw.good_consume hs hunread) hpos
    (.refl _)
  rw [show bodyUpTo rest.length ofProc (s.consume opening rest) = .ok es u from hbody] at hcloses
  obtain ⟨v, closing, rest', ⟨inner, hinner, hbalanced, hclosed⟩, hrest', hclosing, rfl⟩ := hcloses
  have hreads := ((State.Reads.consume hunread).trans hinner).trans (State.Reads.consume hrest')
  exact ⟨opening, inner, closing, hreads, hk, hclosing, hbalanced, hclosed.trans hs.closed⟩

/-- A statement that has read the brace that closes the block around it ends that block. -/
theorem body_of_closed {s : State} (ofProc : Bool) {t : Token} {rest : List Token}
    (hunread : s.unread = t :: rest) (hk : t.kind ≠ .rightBrace)
    (hone : (statement s).2.closedBlocks = 1) :
    body ofProc s = .ok (statement s).1.toList { (statement s).2 with closedBlocks := 0 } := by
  rw [body_of_cons ofProc hunread hk, bodyRest_of_one body ofProc _ hone]

/-- A statement that leaves no block comes first in what is read for the block around it. -/
theorem body_of_open {s : State} (ofProc : Bool) {t : Token} {rest : List Token}
    (hunread : s.unread = t :: rest) (hk : t.kind ≠ .rightBrace)
    (hzero : (statement s).2.closedBlocks = 0) :
    body ofProc s = (if ofProc && isBareReturn (statement s).1 then do
        skipToClose
        return (statement s).1.toList
      else
        return (statement s).1.toList ++ (← body ofProc)) (statement s).2 := by
  rw [body_of_cons ofProc hunread hk, bodyRest_of_zero body ofProc _ hzero]

end Blocks

section Entering

/-- The statements of a block, each of them read by `r`, in at most so many tokens. -/
def bodyWith (r : State → Option Expr × State) : Nat → Bool → Parse (List Expr)
  | 0, _ => failAtEnd (.kind .rightBrace)
  | n + 1, ofProc => bodyStep r (bodyWith r n) ofProc

/-- A block in braces whose statements are read by `r`. -/
def blockWith (r : State → Option Expr × State) : Bool → Parse (List Expr) :=
  braced fun ofProc => bounded fun n => bodyWith r n ofProc

variable {r : State → Option Expr × State}

theorem bodyWith_of_nil (n : Nat) (ofProc : Bool) {s : State} (h : s.unread = []) :
    bodyWith r n ofProc s = failAtEnd (.kind .rightBrace) s := by
  cases n with
  | zero => rfl
  | succ n =>
    show bodyStep _ _ ofProc s = _
    unfold bodyStep
    rw [bind_of_ok (peek_of_nil h)]

/-- Only settled states matter for the statements of a block. -/
theorem bodyWith_eq (hr : ∀ u : State, u.Settled → r u = statement u) (n : Nat) (ofProc : Bool)
    {s t : State} (hs : s.Settled) (hpos : 0 < s.braceDepth) (hst : s.Even t)
    (hn : t.unread.length ≤ n) : bodyWith r n ofProc t = body ofProc t := by
  -- That the braces are even since `s` makes each state on the way a settled one.
  induction n generalizing t with
  | zero =>
    have hnil : t.unread = [] := List.length_eq_zero_iff.mp (Nat.le_zero.mp hn)
    rw [body_of_nil ofProc hnil]
    rfl
  | succ n ih =>
    cases hunread : t.unread with
    | nil => rw [body_of_nil ofProc hunread, bodyWith_of_nil _ ofProc hunread]
    | cons c rest =>
      rw [body_eq]
      show bodyStep r (bodyWith r n) ofProc t = _
      unfold bodyStep
      rw [bind_of_ok (peek_of_cons hunread), bind_of_ok (peek_of_cons hunread)]
      by_cases hk : c.kind = .rightBrace
      · simp only [if_pos hk]
      · simp only [if_neg hk]
        have hends := ends_statement (hst.settled hs)
        have hlater := (later_statement_of_cons hunread).length_le
        have hstatement : always statement t = .ok (statement t).1 (statement t).2 := rfl
        have hwith : always r t = .ok (statement t).1 (statement t).2 := by
          rw [← hr t (hst.settled hs)]
          rfl
        rw [bind_of_ok hstatement, bind_of_ok hwith]
        have hothers : (statement t).2.closedBlocks = 0 →
            bodyWith r n ofProc (statement t).2 = body ofProc (statement t).2 := by
          intro hzero
          rw [hunread, List.length_cons] at hn
          cases hends with
          | whole _ _ heven =>
            have hdepth := hst.braceDepth
            exact ih (hst.trans (heven (by omega)))
              (Nat.le_trans hlater (Nat.le_of_succ_le_succ hn))
          | exhausted hnil _ _ _ => rw [body_of_nil ofProc hnil, bodyWith_of_nil n ofProc hnil]
          | closing _ _ _ _ _ hone _ => omega
        by_cases hzero : (statement t).2.closedBlocks = 0
        · rw [bodyRest_of_zero _ ofProc _ hzero, bodyRest_of_zero _ ofProc _ hzero]
          split
          · rfl
          · simp only [bind, EStateM.bind, hothers hzero]
        · simp only [bodyRest, leaveClosedBlock, if_neg hzero, bind, EStateM.bind, if_true]

/-- Only settled states matter for the statements inside of a statement. -/
theorem statementWith_blockWith (hr : ∀ u : State, u.Settled → r u = statement u) {s : State}
    (hs : s.Settled) : statementWith (blockWith r) s = statement s := by
  have hb : ∀ ofProc, braceLaw.Relates (blockWith r ofProc) (block ofProc) := by
    intro ofProc
    refine relates_braced_of_closes fun {t} ht hpos => ?_
    have heq : bounded (fun n => bodyWith r n ofProc) t = body ofProc t :=
      bodyWith_eq hr _ ofProc ht hpos (.refl t) (Nat.le_refl _)
    rw [heq]
    exact ⟨rfl, closes_bodyUpTo _ ofProc ht hpos (.refl t)⟩
  unfold statement statementWith
  rw [(relates_optionalStatement hb).eq hs]

end Entering
end Parse

section Programs

/-- Where no brace is open, a statement closes none. -/
theorem settled_statement {s : State} (hs : s.Settled) (hzero : s.braceDepth = 0) :
    (Parse.statement s).2.Settled ∧
      ((Parse.statement s).2.unread ≠ [] → (Parse.statement s).2.braceDepth = 0) := by
  have hsettled := (Parse.later_statement s).settled hs
  cases Parse.ends_statement hs with
  | whole hclosed hdepth _ => exact ⟨hsettled hclosed, fun _ => hdepth.trans hzero⟩
  | closing _ _ _ _ _ _ hdepth => omega
  | exhausted hnil hclosed _ _ => exact ⟨hsettled hclosed, fun h => absurd hnil h⟩

/-- Between the statements of a program no brace is open, unless the input has ended. -/
theorem settled_of_mem_statements {s : State} (hs : s.Settled) (hzero : s.braceDepth = 0)
    {step : Option Expr × State} (hmem : step ∈ s.statements) :
    step.2.Settled ∧ (step.2.unread ≠ [] → step.2.braceDepth = 0) := by
  induction s using Parse.statement_induction with
  | nil s hunread =>
    rw [State.statements_of_nil hunread] at hmem
    cases hmem
  | cons s t rest hunread ih =>
    have hnext := settled_statement hs hzero
    rw [State.statements_of_cons hunread, List.mem_cons] at hmem
    rcases hmem with rfl | hmem
    · exact hnext
    · by_cases hnil : (Parse.statement s).2.unread = []
      · rw [State.statements_of_nil hnil] at hmem
        cases hmem
      · exact ih hnext.1 (hnext.2 hnil) hmem

/--
The counter of open braces and the mark of a block that is to be left are right throughout a
program.  At every place where a statement begins, also inside of blocks, the counter is that of the
tokens read and no block is to be left; the statement ends in one of three ways; and if it has read
the brace that closes the block around it, that block ends at once.  A block that is read ends with
the brace that matches its first one.
-/
theorem parseProgram_braces :
    (∀ ts finish, ∀ step ∈ ({ unread := ts, finish := finish } : State).statements,
      step.2.Settled ∧ (step.2.unread ≠ [] → step.2.braceDepth = 0)) ∧
    (∀ s : State, s.Settled → s.Ends (Parse.statement s).2 ∧
      (Parse.statement s).2.closedBlocks ≤ 1 ∧
      (Parse.statement s).2.braceDepth =
        (Parse.statement s).2.read.reverse.foldl depthAfter 0) ∧
    (∀ r, (∀ u : State, u.Settled → r u = Parse.statement u) →
      ∀ s : State, s.Settled → Parse.statementWith (Parse.blockWith r) s = Parse.statement s) ∧
    (∀ (s : State) t rest ofProc, s.unread = t :: rest → t.kind ≠ .rightBrace →
      (Parse.statement s).2.closedBlocks = 1 →
      Parse.body ofProc s =
        .ok (Parse.statement s).1.toList { (Parse.statement s).2 with closedBlocks := 0 }) ∧
    (∀ (s u : State) ofProc es, s.Settled → Parse.block ofProc s = .ok es u →
      ∃ opening inner closing, s.Reads (opening :: inner ++ [closing]) u ∧
        opening.kind = .leftBrace ∧ closing.kind = .rightBrace ∧ Balanced inner ∧
        u.closedBlocks = 0) := by
  refine ⟨?_, ?_, ?_, ?_, ?_⟩
  · intro ts finish step hmem
    exact settled_of_mem_statements ⟨rfl, rfl⟩ rfl hmem
  · intro s hs
    obtain ⟨ts, hts⟩ := (Parse.later_statement s).reads
    have hends := Parse.ends_statement hs
    exact ⟨hends, hends.closedBlocks_le, hts.depth_eq hs.depth⟩
  · intro r hr s hs
    exact Parse.statementWith_blockWith hr hs
  · intro s t rest ofProc hunread hk hone
    exact Parse.body_of_closed ofProc hunread hk hone
  · intro s u ofProc es hs h
    exact Parse.block_reads hs h

/-- A statement that fails at the brace behind it ends the block around it. -/
theorem parseProgram_braces_closing :
    ∃ s : State, s.Settled ∧ (Parse.statement s).2.closedBlocks = 1 ∧
      s.Ends (Parse.statement s).2 ∧
      Parse.body false s =
        .ok (Parse.statement s).1.toList { (Parse.statement s).2 with closedBlocks := 0 } := by
  let s : State := {
    read := [⟨.leftBrace, "\x7b", ⟨"p", 0, 0⟩, .none⟩]
    unread := [⟨.not, "!", ⟨"p", 0, 2⟩, .none⟩, ⟨.rightBrace, "\x7d", ⟨"p", 0, 3⟩, .none⟩]
    finish := ⟨"p", 0, 4⟩
    braceDepth := 1 }
  have hs : s.Settled := ⟨rfl, rfl⟩
  have hone : (Parse.statement s).2.closedBlocks = 1 := by decide +kernel
  obtain ⟨_, hends, _, hclosed, _⟩ := parseProgram_braces
  exact ⟨s, hs, hone, (hends s hs).1, hclosed s _ _ false rfl nofun hone⟩

end Programs
end ScriptFront
