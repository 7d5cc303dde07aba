import ScriptFront.Proofs.Reading.Grammar

/-!
# Reading goes through the tokens one by one

A state is later than another one if it can be reached from it by reading: between the two, some of
the unread tokens have been read, each of them once and in order, and problems have been added to
those reported before.  Every reader, whether it succeeds or fails, leads to a later state.

**Results.**

* `readingLaw`: the step law that says so, from states with a bounded number of unread tokens.
* `Parse.later_statement`: every statement leads to a later state.
-/

namespace ScriptFront
namespace State

/-- The tokens `ts` are read on the way from one state to another. -/
structure Reads (s : State) (ts : List Token) (t : State) : Prop where
  unread : s.unread = ts ++ t.unread
  read : t.read = ts.reverse ++ s.read
  depth : t.braceDepth = ts.foldl depthAfter s.braceDepth

namespace Reads

theorem refl (s : State) : s.Reads [] s :=
  ⟨rfl, rfl, rfl⟩

theorem trans {s t u : State} {ts us : List Token} (hst : s.Reads ts t) (htu : t.Reads us u) :
    s.Reads (ts ++ us) u where
  unread := by rw [hst.unread, htu.unread, List.append_assoc]
  read := by rw [htu.read, hst.read, List.reverse_append, List.append_assoc]
  depth := by rw [htu.depth, hst.depth, List.foldl_append]

theorem consume {s : State} {t : Token} {rest : List Token} (h : s.unread = t :: rest) :
    s.Reads [t] (s.consume t rest) :=
  ⟨h, rfl, rfl⟩

theorem consumeAll {s : State} {ts rest : List Token} (h : s.unread = ts ++ rest) :
    s.Reads ts (s.consumeAll ts rest) :=
  ⟨h, rfl, rfl⟩

end Reads

/-- A state that can be reached from another one by reading. -/
structure Later (s t : State) : Prop where
  reads : ∃ ts, s.Reads ts t
  finish : t.finish = s.finish
  problems : s.problems <+: t.problems

namespace Later

theorem refl (s : State) : s.Later s :=
  ⟨⟨[], .refl s⟩, rfl, List.prefix_rfl⟩

theorem trans {s t u : State} (hst : s.Later t) (htu : t.Later u) : s.Later u := by
  obtain ⟨ts, hts⟩ := hst.reads
  obtain ⟨us, hus⟩ := htu.reads
  exact ⟨⟨ts ++ us, hts.trans hus⟩, htu.finish.trans hst.finish, hst.problems.trans htu.problems⟩

theorem consume {s : State} {t : Token} {rest : List Token} (h : s.unread = t :: rest) :
    s.Later (s.consume t rest) :=
  ⟨⟨[t], .consume h⟩, rfl, List.prefix_rfl⟩

theorem consumeAll {s : State} {ts rest : List Token} (h : s.unread = ts ++ rest) :
    s.Later (s.consumeAll ts rest) :=
  ⟨⟨ts, .consumeAll h⟩, rfl, List.prefix_rfl⟩

/-- What is written down about a program moves no token. -/
theorem of_same {s t : State} (hunread : t.unread = s.unread) (hread : t.read = s.read)
    (hdepth : t.braceDepth = s.braceDepth) (hfinish : t.finish = s.finish)
    (hproblems : s.problems <+: t.problems) : s.Later t :=
  ⟨⟨[], hunread.symm, hread, hdepth⟩, hfinish, hproblems⟩

theorem report (s : State) (p : Problem) : s.Later (s.report p) := by
  unfold State.report
  split
  · exact .refl s
  · exact of_same rfl rfl rfl rfl (List.prefix_append _ _)

theorem openScope (s : State) (bindings : List (Binding Expr)) : s.Later (s.openScope bindings) :=
  of_same rfl rfl rfl rfl List.prefix_rfl

theorem closeScope (s : State) (entries : List (Entry (Binding Expr))) :
    s.Later (s.closeScope entries) :=
  of_same rfl rfl rfl rfl List.prefix_rfl

theorem length_le {s t : State} (h : s.Later t) : t.unread.length ≤ s.unread.length := by
  obtain ⟨ts, hts⟩ := h.reads
  rw [hts.unread, List.length_append]
  omega

/-- Reading keeps the tokens. -/
theorem tokens_eq {s t : State} (h : s.Later t) : t.tokens = s.tokens := by
  obtain ⟨ts, hts⟩ := h.reads
  unfold tokens
  rw [hts.read, hts.unread, List.reverse_append, List.reverse_reverse, List.append_assoc]

theorem skipToBoundary (s : State) (depth : Nat) : s.Later (s.skipToBoundary depth) :=
  consumeAll (splitAtBoundary_append depth s.unread).symm

theorem recover (s : State) (depth : Nat) (p : Problem) : s.Later (s.recover depth p) := by
  refine (report s p).trans ?_
  unfold State.recover
  simp only
  split
  · exact of_same rfl rfl rfl rfl List.prefix_rfl
  · exact skipToBoundary _ _

end Later
end State

/-- Reading from a state with less than `n` unread tokens leads to a later state. -/
def readingLaw (n : Nat) : StepLaw where
  good s := s.unread.length < n
  ok := State.Later
  err _ := State.Later
  refl := .refl
  trans := .trans
  err_of_ok h := h
  ok_err := .trans
  good_of_ok hs h := Nat.lt_of_le_of_lt h.length_le hs
  good_consume hs h := Nat.lt_of_le_of_lt (State.Later.consume h).length_le hs
  good_openScope _ hs := hs
  read h _ _ := .consume h
  stop _ h := .consume h
  enclose h _ hu hrest _ := ((State.Later.consume h).trans hu).trans (.consume hrest)
  enclose_err h _ hu := (State.Later.consume h).trans hu
  report := .report
  declare _ _ _ := .of_same rfl rfl rfl rfl List.prefix_rfl
  rebind _ _ _ := .of_same rfl rfl rfl rfl List.prefix_rfl
  addProc _ h _ := h.trans (.of_same rfl rfl rfl rfl List.prefix_rfl)
  complete _ := .of_same rfl rfl rfl rfl List.prefix_rfl
  scope h := (State.Later.openScope _ _).trans (h.trans (.closeScope _ _))
  scope_err h := (State.Later.openScope _ _).trans (h.trans (.closeScope _ _))

theorem readingLaw_loose (n : Nat) : (readingLaw n).Loose where
  consumeAll := .consumeAll
  recover depth h := h.trans (.recover _ depth _)
  leave _ := .of_same rfl rfl rfl rfl List.prefix_rfl

namespace Parse

variable {α : Type}

/-- A reader that keeps the law for every number of tokens leads to a later state. -/
theorem later_of_ok {p : Parse α} (h : ∀ n, (readingLaw n).Relates p p) {s t : State} {a : α}
    (hp : p s = .ok a t) : s.Later t :=
  (h (s.unread.length + 1)).ok (Nat.lt_succ_self _) hp

theorem later_of_expr {s t : State} {e : Expr} (h : expr s = .ok e t) : s.Later t :=
  later_of_ok (fun _ => StepLaw.relates_expr) h

theorem later_statement (s : State) : s.Later (statement s).2 :=
  ((readingLaw_loose _).ok_statementWith (readingLaw_loose _).relates_block
    (Nat.lt_succ_self s.unread.length)).2

end Parse
end ScriptFront
