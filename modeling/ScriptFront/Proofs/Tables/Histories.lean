import ScriptFront.Symbol.History

/-!
# Scopes in histories of tables

A scope declares entries for the time of its block and takes them out again by their identities,
from between those that the block has declared.  Whatever the block does but for removing these
entries, and wherever it fails, the tables are left as without the scope.  At every moment a table
lists its entries by the age of their declarations, so that the entry that is found for a name is
the oldest one.

**Algorithm.** Whether a step fails does not depend on the tables (`Step.fails`), so a history is a
list of changes, one for each entry that is declared or removed by a step that is taken
(`Step.changes`); its moments are the tables in front of it, between the changes and behind it.
Taking an entry out commutes with each change as long as the entry is there, and it is there at each
moment of a block that does not remove it: a scope inside takes out no more than it has declared,
also where it declares the same entry once more.

**Results.**

* `erase_changeAll`: an entry may as well be taken out in front of changes as behind them.
* `Step.le_count_of_mem_moments`: a step that does not remove an entry keeps it at every moment.
* `sublist_of_mem_moments`: the entries at any moment, in the order of their declarations.
* `scope_transparent`: scopes leave no trace, and the oldest entry is found.
-/

namespace ScriptFront

/-- What tells an entry from all others: its table, and its identity there. -/
def Symbol.key (s : Symbol) : SymbolKind × Nat :=
  (s.kind, s.id)

namespace Tables

/-- The entries of one table, oldest first. -/
def symbols (t : Tables) : SymbolKind → List Symbol
  | .variable => t.vars.entries.map .variable
  | .procedure => t.procedures.entries.map .procedure
  | .struct => t.structs.entries.map .struct
  | .impl => t.impls.entries.map .impl

/-- How often an entry is in its table. -/
def count (t : Tables) (key : SymbolKind × Nat) : Nat :=
  ((t.symbols key.1).map Symbol.key).count key

section Symbols

variable {t u : Tables} {s : Symbol} {kind : SymbolKind}

theorem symbols_declare (t : Tables) (s : Symbol) (kind : SymbolKind) :
    (t.declare s).symbols kind = t.symbols kind ++ [s].filter fun x => x.kind = kind := by
  cases s <;> cases kind <;> simp [declare, symbols, Symbol.kind]

theorem kind_of_mem_symbols (hs : s ∈ t.symbols kind) : s.kind = kind := by
  cases kind <;>
  · obtain ⟨e, -, rfl⟩ := List.mem_map.mp hs
    rfl

theorem key_beq (x s : Symbol) : (x.key == s.key) = (x.kind == s.kind && x.id == s.id) :=
  rfl

/-- No entry of another table is the entry. -/
theorem eraseP_symbols_of_ne (t : Tables) (hkind : s.kind ≠ kind) :
    ((t.symbols kind).eraseP fun x => x.key == s.key) = t.symbols kind := by
  refine List.eraseP_of_forall_not fun x hx hkey => hkind ?_
  have hsame : x.kind = s.kind := congrArg Prod.fst (beq_iff_eq.mp hkey)
  exact hsame.symm.trans (kind_of_mem_symbols hx)

theorem symbols_erase (t : Tables) (s : Symbol) (kind : SymbolKind) :
    (t.erase s).symbols kind = (t.symbols kind).eraseP fun x => x.key == s.key := by
  by_cases hkind : s.kind = kind
  · subst hkind
    cases s <;>
      simp [erase, SymbolTable.erase, symbols, key_beq, Symbol.kind, Symbol.id, List.eraseP_map,
        Function.comp_def]
  · rw [eraseP_symbols_of_ne t hkind]
    cases s <;> cases kind <;> first | rfl | exact absurd rfl hkind

theorem lookup?_eq_find? (t : Tables) (kind : SymbolKind) (name : String) :
    t.lookup? kind name = (t.symbols kind).find? fun s => s.name = name := by
  cases kind <;>
  · rw [symbols, List.find?_map]
    rfl

theorem eq_of_symbols (h : ∀ kind, t.symbols kind = u.symbols kind) : t = u := by
  obtain ⟨⟨vars⟩, ⟨procedures⟩, ⟨structs⟩, ⟨impls⟩⟩ := t
  obtain ⟨⟨vars'⟩, ⟨procedures'⟩, ⟨structs'⟩, ⟨impls'⟩⟩ := u
  obtain rfl := (List.map_inj_right fun _ _ => Symbol.variable.inj).mp (h .variable)
  obtain rfl := (List.map_inj_right fun _ _ => Symbol.procedure.inj).mp (h .procedure)
  obtain rfl := (List.map_inj_right fun _ _ => Symbol.struct.inj).mp (h .struct)
  obtain rfl := (List.map_inj_right fun _ _ => Symbol.impl.inj).mp (h .impl)
  rfl

theorem count_declare (t : Tables) (s : Symbol) (key : SymbolKind × Nat) :
    (t.declare s).count key = t.count key + if s.key = key then 1 else 0 := by
  unfold count
  rw [symbols_declare, List.map_append, List.count_append, Nat.add_left_cancel_iff]
  by_cases hkind : s.kind = key.1
  · rw [List.filter_cons_of_pos (by simpa using hkind)]
    simp [List.count_cons]
  · have hkey : s.key ≠ key := fun h => hkind (congrArg Prod.fst h)
    rw [List.filter_cons_of_neg (by simpa using hkind), if_neg hkey]
    rfl

theorem count_erase (t : Tables) (s : Symbol) (key : SymbolKind × Nat) :
    (t.erase s).count key = t.count key - if s.key = key then 1 else 0 := by
  have hmap (l : List Symbol) :
      (l.eraseP fun x => x.key == s.key).map Symbol.key = (l.map Symbol.key).erase s.key := by
    rw [List.erase_eq_eraseP', List.eraseP_map]
    rfl
  unfold count
  rw [symbols_erase, hmap, List.count_erase]
  simp

theorem count_pos_iff {t : Tables} {s : Symbol} :
    0 < t.count s.key ↔ ∃ x ∈ t.symbols s.kind, x.key = s.key := by
  unfold count
  rw [List.count_pos_iff, List.mem_map]
  rfl

theorem holds_eq_any (t : Tables) (s : Symbol) :
    t.holds s = (t.symbols s.kind).any fun x => x.key == s.key := by
  cases s <;>
  · simp only [symbols, Symbol.kind, List.any_map]
    rfl

theorem count_eq_zero_of_holds (h : t.holds s = false) : t.count s.key = 0 := by
  rw [← Nat.le_zero, ← Nat.not_lt, count_pos_iff]
  rintro ⟨x, hx, hkey⟩
  rw [holds_eq_any, List.any_eq_false] at h
  exact h x hx (beq_iff_eq.mpr hkey)

theorem erase_comm (t : Tables) (s s' : Symbol) : (t.erase s).erase s' = (t.erase s').erase s := by
  refine eq_of_symbols fun kind => ?_
  simp only [symbols_erase]
  by_cases hkey : s.key = s'.key
  · rw [hkey]
  · refine List.eraseP_comm fun x _ => ?_
    rw [beq_iff_eq, beq_iff_eq]
    by_cases hx : x.key = s.key
    · exact .inr (hx ▸ hkey)
    · exact .inl hx

/-- An entry that is there is taken out from in front of a new one. -/
theorem erase_declare (hs : 0 < t.count s.key) (new : Symbol) :
    (t.declare new).erase s = (t.erase s).declare new := by
  refine eq_of_symbols fun kind => ?_
  by_cases hkind : s.kind = kind
  · subst hkind
    obtain ⟨x, hx, hkey⟩ := count_pos_iff.mp hs
    rw [symbols_erase, symbols_declare, symbols_declare, symbols_erase,
      List.eraseP_append_left (p := fun x : Symbol => x.key == s.key) (beq_iff_eq.mpr hkey) _ hx]
  · rw [symbols_erase, eraseP_symbols_of_ne _ hkind, symbols_declare, symbols_declare,
      symbols_erase, eraseP_symbols_of_ne _ hkind]

/-- A new entry that was not there is taken out again. -/
theorem erase_declare_self (hs : t.count s.key = 0) : (t.declare s).erase s = t := by
  refine eq_of_symbols fun kind => ?_
  by_cases hkind : s.kind = kind
  · subst hkind
    have hfresh : ∀ x ∈ t.symbols s.kind, ¬ (x.key == s.key) = true := by
      intro x hx hkey
      have hpos := count_pos_iff.mpr ⟨x, hx, beq_iff_eq.mp hkey⟩
      omega
    rw [symbols_erase, symbols_declare, List.eraseP_append_right _ hfresh]
    simp
  · rw [symbols_erase, eraseP_symbols_of_ne _ hkind, symbols_declare,
      List.filter_cons_of_neg (by simpa using hkind), List.filter_nil, List.append_nil]

end Symbols

/-- A change of the tables. -/
inductive Change where
  | declare (s : Symbol)
  | erase (s : Symbol)

/-- The entry that a change declares. -/
def Change.declared? : Change → Option Symbol
  | .declare s => some s
  | .erase _ => none

/-- The tables behind a change. -/
def change (t : Tables) : Change → Tables
  | .declare s => t.declare s
  | .erase s => t.erase s

/-- The tables behind several changes. -/
def changeAll (t : Tables) (cs : List Change) : Tables :=
  cs.foldl change t

mutual

/-- The step ends with a failure. -/
def Step.fails : Step → Bool
  | .fail => true
  | .within _ block => Step.blockFails block
  | .declare _ | .erase _ | .lookup _ _ | .contains _ _ | .size _ | .describe _ | .resolve _
  | .visibleNames | .attempt _ => false

/-- One of the steps ends with a failure. -/
def Step.blockFails : List Step → Bool
  | [] => false
  | step :: steps => step.fails || Step.blockFails steps

end

mutual

/-- The changes that a step makes, one after the other. -/
def Step.changes : Step → List Change
  | .declare s => [.declare s]
  | .erase s => [.erase s]
  | .lookup _ _ | .contains _ _ | .size _ | .describe _ | .resolve _ | .visibleNames | .fail => []
  | .within symbols block => symbols.map .declare ++ Step.changesAll block ++ symbols.map .erase
  | .attempt block => Step.changesAll block

/-- The changes that several steps make, up to the first one that fails. -/
def Step.changesAll : List Step → List Change
  | [] => []
  | step :: steps =>
    if step.fails then step.changes else step.changes ++ Step.changesAll steps

end

mutual

/-- The entries that a step asks to remove, by name and not by the end of a scope. -/
def Step.removals : Step → List Symbol
  | .erase s => [s]
  | .within _ block | .attempt block => Step.removalsAll block
  | .declare _ | .lookup _ _ | .contains _ _ | .size _ | .describe _ | .resolve _
  | .visibleNames | .fail => []

/-- The entries that several steps ask to remove, up to the first one that fails. -/
def Step.removalsAll : List Step → List Symbol
  | [] => []
  | step :: steps =>
    if step.fails then step.removals else step.removals ++ Step.removalsAll steps

end

/-- The tables in front of changes, between them and behind them. -/
def moments (t : Tables) : List Change → List Tables
  | [] => [t]
  | c :: cs => t :: moments (t.change c) cs

section Changes

variable {t u : Tables} {s : Symbol} {key : SymbolKind × Nat} {n : Nat} {cs ds : List Change}

theorem changeAll_append (t : Tables) (cs ds : List Change) :
    t.changeAll (cs ++ ds) = (t.changeAll cs).changeAll ds :=
  List.foldl_append

theorem foldl_declare (t : Tables) (symbols : List Symbol) :
    symbols.foldl declare t = t.changeAll (symbols.map .declare) := by
  unfold changeAll
  rw [List.foldl_map]
  rfl

theorem foldl_erase (t : Tables) (symbols : List Symbol) :
    symbols.foldl erase t = t.changeAll (symbols.map .erase) := by
  unfold changeAll
  rw [List.foldl_map]
  rfl

theorem mem_moments_append :
    u ∈ t.moments (cs ++ ds) ↔ u ∈ t.moments cs ∨ u ∈ (t.changeAll cs).moments ds := by
  induction cs generalizing t with
  | nil =>
    have hfirst : t ∈ t.moments ds := by cases ds <;> simp [moments]
    simpa [moments, changeAll] using fun h : u = t => h ▸ hfirst
  | cons c cs ih =>
    rw [List.cons_append, moments, moments, List.mem_cons, List.mem_cons, ih, or_assoc]
    rfl

theorem changeAll_mem_moments (t : Tables) (cs : List Change) : t.changeAll cs ∈ t.moments cs := by
  induction cs generalizing t with
  | nil => exact List.mem_cons_self
  | cons c cs ih => exact List.mem_cons_of_mem _ (ih (t.change c))

mutual

/-- Whether a step fails does not depend on the tables. -/
theorem Step.failed_run (t : Tables) (step : Step) : (Step.run t step).failed = step.fails := by
  cases step with
  | within symbols block => exact Step.failed_runBlock _ block
  | _ => rfl

theorem Step.failed_runBlock (t : Tables) (steps : List Step) :
    (Step.runBlock t steps).failed = Step.blockFails steps := by
  cases steps with
  | nil => rfl
  | cons step steps =>
    rw [Step.runBlock, Step.blockFails]
    simp only [Step.failed_run]
    cases hfails : step.fails with
    | true => simpa [hfails] using Step.failed_run t step
    | false => simpa using Step.failed_runBlock _ steps

end

/-- Behind a step that fails no other one is taken. -/
theorem Step.runBlock_of_fails {step : Step} (hfails : step.fails = true) (steps : List Step) :
    Step.runBlock t (step :: steps) = Step.run t step := by
  rw [Step.runBlock]
  exact if_pos ((Step.failed_run t step).trans hfails)

theorem Step.runBlock_of_not_fails {step : Step} (hfails : step.fails = false)
    (steps : List Step) : Step.runBlock t (step :: steps) =
      { Step.runBlock (Step.run t step).tables steps with
        answers := (Step.run t step).answers ++
          (Step.runBlock (Step.run t step).tables steps).answers } := by
  rw [Step.runBlock]
  exact if_neg (by simp [Step.failed_run, hfails])

/-- A failure behind a block changes nothing but that the block fails. -/
theorem Step.runBlock_append_fail (t : Tables) (steps : List Step) :
    Step.runBlock t (steps ++ [.fail]) = { Step.runBlock t steps with failed := true } := by
  induction steps generalizing t with
  | nil => rfl
  | cons step steps ih =>
    rw [List.cons_append]
    cases hfails : step.fails with
    | true =>
      rw [Step.runBlock_of_fails hfails, Step.runBlock_of_fails hfails, ← hfails,
        ← Step.failed_run t step]
    | false =>
      rw [Step.runBlock_of_not_fails hfails, Step.runBlock_of_not_fails hfails, ih]

mutual

/-- A step leaves the tables as its changes do. -/
theorem Step.run_eq_changeAll (t : Tables) (step : Step) :
    (Step.run t step).tables = t.changeAll step.changes := by
  cases step with
  | within symbols block =>
    rw [Step.run, Step.changes]
    simp only [foldl_declare, foldl_erase]
    rw [Step.runBlock_eq_changeAll, changeAll_append, changeAll_append]
  | attempt block => exact Step.runBlock_eq_changeAll t block
  | _ => rfl

theorem Step.runBlock_eq_changeAll (t : Tables) (steps : List Step) :
    (Step.runBlock t steps).tables = t.changeAll (Step.changesAll steps) := by
  cases steps with
  | nil => rfl
  | cons step steps =>
    rw [Step.changesAll]
    cases hfails : step.fails with
    | true =>
      rw [Step.runBlock_of_fails hfails, if_pos rfl]
      exact Step.run_eq_changeAll t step
    | false =>
      rw [Step.runBlock_of_not_fails hfails, if_neg Bool.false_ne_true, changeAll_append]
      simp only
      rw [Step.runBlock_eq_changeAll, Step.run_eq_changeAll]

end

mutual

/-- Each answer is given at a moment of its history. -/
theorem Step.mem_moments_of_mem_run (t : Tables) (step : Step) :
    ∀ a ∈ (Step.run t step).answers, a.2 ∈ t.moments step.changes := by
  cases step with
  | within symbols block =>
    intro a ha
    rw [Step.changes]
    obtain ha | ha := List.mem_append.mp ha
    · rw [foldl_declare] at ha
      exact mem_moments_append.mpr
        (.inl (mem_moments_append.mpr (.inr (Step.mem_moments_of_mem_runBlock _ block a ha))))
    · obtain rfl := List.mem_singleton.mp ha
      rw [foldl_declare, foldl_erase, Step.runBlock_eq_changeAll, ← changeAll_append,
        ← changeAll_append, ← List.append_assoc]
      exact changeAll_mem_moments t _
  | attempt block => exact Step.mem_moments_of_mem_runBlock t block
  | fail => exact fun a ha => absurd ha List.not_mem_nil
  | _ =>
    intro a ha
    obtain rfl := List.mem_singleton.mp ha
    exact changeAll_mem_moments t _

theorem Step.mem_moments_of_mem_runBlock (t : Tables) (steps : List Step) :
    ∀ a ∈ (Step.runBlock t steps).answers, a.2 ∈ t.moments (Step.changesAll steps) := by
  cases steps with
  | nil => exact fun a ha => absurd ha List.not_mem_nil
  | cons step steps =>
    intro a ha
    rw [Step.changesAll]
    cases hfails : step.fails with
    | true =>
      rw [Step.runBlock_of_fails hfails] at ha
      rw [if_pos rfl]
      exact Step.mem_moments_of_mem_run t step a ha
    | false =>
      rw [Step.runBlock_of_not_fails hfails] at ha
      rw [if_neg Bool.false_ne_true]
      obtain ha | ha := List.mem_append.mp ha
      · exact mem_moments_append.mpr (.inl (Step.mem_moments_of_mem_run t step a ha))
      · rw [Step.run_eq_changeAll] at ha
        exact mem_moments_append.mpr (.inr (Step.mem_moments_of_mem_runBlock _ steps a ha))

end

/-- What is there in front of erasures is there between them, less those that are erased. -/
theorem le_count_of_mem_moments_erase (symbols : List Symbol)
    (h : n + (symbols.map Symbol.key).count key ≤ t.count key)
    (hu : u ∈ t.moments (symbols.map .erase)) : n ≤ u.count key := by
  induction symbols generalizing t with
  | nil =>
    obtain rfl := List.mem_singleton.mp hu
    exact h
  | cons s symbols ih =>
    rw [List.map_cons, List.count_cons] at h
    obtain rfl | hu := List.mem_cons.mp hu
    · omega
    · refine ih ?_ hu
      show _ ≤ (t.erase s).count key
      rw [count_erase]
      by_cases hkey : s.key = key <;> simp [hkey] at h ⊢ <;> omega

/-- Declarations add to what is there. -/
theorem le_count_of_mem_moments_declare (symbols : List Symbol) (h : n ≤ t.count key)
    (hu : u ∈ t.moments (symbols.map .declare)) : n ≤ u.count key := by
  induction symbols generalizing t with
  | nil =>
    obtain rfl := List.mem_singleton.mp hu
    exact h
  | cons s symbols ih =>
    obtain rfl | hu := List.mem_cons.mp hu
    · exact h
    · refine ih ?_ hu
      show _ ≤ (t.declare s).count key
      rw [count_declare]
      omega

theorem count_declareAll (t : Tables) (symbols : List Symbol) (key : SymbolKind × Nat) :
    (t.changeAll (symbols.map .declare)).count key =
      t.count key + (symbols.map Symbol.key).count key := by
  induction symbols generalizing t with
  | nil => rfl
  | cons s symbols ih =>
    have hrest := ih (t.declare s)
    rw [count_declare] at hrest
    rw [List.map_cons, List.map_cons, List.count_cons]
    simp only [beq_iff_eq]
    show ((t.declare s).changeAll _).count key = _
    omega

mutual

/-- An entry is there at each moment of a step that does not ask to remove it, as often as in front
of the step: a scope removes no more than it has declared. -/
theorem Step.le_count_of_mem_moments {t u : Tables} {n : Nat} (step : Step)
    (hkept : ∀ x ∈ step.removals, x.key ≠ key) (h : n ≤ t.count key)
    (hu : u ∈ t.moments step.changes) : n ≤ u.count key := by
  cases step with
  | declare s => exact le_count_of_mem_moments_declare [s] h hu
  | erase s =>
    have hkey : s.key ≠ key := hkept s List.mem_cons_self
    refine le_count_of_mem_moments_erase [s] ?_ hu
    simpa [hkey] using h
  | within symbols block =>
    -- The block keeps what the scope has declared as well, so its end takes out no more than that.
    have hinside : n + (symbols.map Symbol.key).count key ≤
        (t.changeAll (symbols.map .declare)).count key := by
      rw [count_declareAll]
      omega
    rw [Step.changes] at hu
    obtain hu | hu := mem_moments_append.mp hu
    · obtain hu | hu := mem_moments_append.mp hu
      · exact le_count_of_mem_moments_declare symbols h hu
      · have hcount := Step.le_count_of_mem_momentsAll block hkept hinside hu
        omega
    · refine le_count_of_mem_moments_erase symbols ?_ hu
      rw [changeAll_append]
      exact Step.le_count_of_mem_momentsAll block hkept hinside (changeAll_mem_moments _ _)
  | attempt block => exact Step.le_count_of_mem_momentsAll block hkept h hu
  | _ =>
    obtain rfl := List.mem_singleton.mp hu
    exact h

theorem Step.le_count_of_mem_momentsAll {t u : Tables} {n : Nat} (steps : List Step)
    (hkept : ∀ x ∈ Step.removalsAll steps, x.key ≠ key) (h : n ≤ t.count key)
    (hu : u ∈ t.moments (Step.changesAll steps)) : n ≤ u.count key := by
  cases steps with
  | nil =>
    obtain rfl := List.mem_singleton.mp hu
    exact h
  | cons step steps =>
    rw [Step.removalsAll] at hkept
    rw [Step.changesAll] at hu
    cases hfails : step.fails with
    | true =>
      rw [if_pos hfails] at hkept hu
      exact Step.le_count_of_mem_moments step hkept h hu
    | false =>
      rw [if_neg (by simp [hfails]), List.forall_mem_append] at hkept
      rw [if_neg (by simp [hfails])] at hu
      obtain hu | hu := mem_moments_append.mp hu
      · exact Step.le_count_of_mem_moments step hkept.1 h hu
      · have hfirst := Step.le_count_of_mem_moments step hkept.1 h (changeAll_mem_moments t _)
        exact Step.le_count_of_mem_momentsAll steps hkept.2 hfirst hu

end

/-- An entry that stays there during changes may as well be taken out in front of them. -/
theorem erase_changeAll (hs : ∀ u ∈ t.moments cs, 0 < u.count s.key) :
    (t.changeAll cs).erase s = (t.erase s).changeAll cs := by
  induction cs generalizing t with
  | nil => rfl
  | cons c cs ih =>
    have hrest : ∀ u ∈ (t.change c).moments cs, 0 < u.count s.key :=
      fun u hu => hs u (List.mem_cons_of_mem _ hu)
    have hchange : (t.change c).erase s = (t.erase s).change c := by
      cases c with
      | declare new => exact erase_declare (hs t List.mem_cons_self) new
      | erase other => exact erase_comm t other s
    calc ((t.change c).changeAll cs).erase s
      _ = ((t.change c).erase s).changeAll cs := ih hrest
      _ = ((t.erase s).change c).changeAll cs := by rw [hchange]

theorem count_change_congr (h : t.count key = u.count key) (c : Change) :
    (t.change c).count key = (u.change c).count key := by
  cases c with
  | declare s =>
    show (t.declare s).count key = (u.declare s).count key
    rw [count_declare, count_declare, h]
  | erase s =>
    show (t.erase s).count key = (u.erase s).count key
    rw [count_erase, count_erase, h]

/-- How long an entry stays depends on how often it is there, and on nothing else. -/
theorem forall_moments_congr (h : t.count key = u.count key)
    (hs : ∀ x ∈ t.moments cs, n ≤ x.count key) : ∀ x ∈ u.moments cs, n ≤ x.count key := by
  induction cs generalizing t u with
  | nil =>
    rw [moments, List.forall_mem_singleton] at hs ⊢
    exact h ▸ hs
  | cons c cs ih =>
    rw [moments, List.forall_mem_cons] at hs ⊢
    exact ⟨h ▸ hs.1, ih (count_change_congr h c) hs.2⟩

/-- A declared entry is taken out from in front of the ones that are declared behind it. -/
theorem erase_declareAll {symbols : List Symbol} (hs : t.holds s = false) :
    (((t.declare s).changeAll (symbols.map .declare)).erase s) =
      t.changeAll (symbols.map .declare) := by
  have hfresh : t.count s.key = 0 := count_eq_zero_of_holds hs
  have hcount : 0 < (t.declare s).count s.key := by
    rw [count_declare]
    simp
  rw [erase_changeAll fun u hu => le_count_of_mem_moments_declare symbols hcount hu,
    erase_declare_self hfresh]

/-- Entries that were not there are taken out behind changes during which they stay there, as if
they had never been declared. -/
theorem eraseAll_changeAll_declareAll {symbols : List Symbol}
    (hdistinct : (symbols.map Symbol.key).Nodup) (hfresh : ∀ s ∈ symbols, t.holds s = false)
    (hstays : ∀ s ∈ symbols, ∀ u ∈ (t.changeAll (symbols.map .declare)).moments cs,
      0 < u.count s.key) :
    ((t.changeAll (symbols.map .declare)).changeAll cs).changeAll (symbols.map .erase) =
      t.changeAll cs := by
  induction symbols with
  | nil => rfl
  | cons s symbols ih =>
    obtain ⟨hnew, hdistinct⟩ := List.nodup_cons.mp hdistinct
    rw [List.forall_mem_cons] at hfresh hstays
    -- Without the first entry, what is left is a scope of the others.
    have htaken : (t.changeAll ((s :: symbols).map .declare)).erase s =
        t.changeAll (symbols.map .declare) := erase_declareAll hfresh.1
    have hothers : ∀ x ∈ symbols, ∀ u ∈ (t.changeAll (symbols.map .declare)).moments cs,
        0 < u.count x.key := by
      intro x hx
      have hkey : s.key ≠ x.key := fun h => hnew (List.mem_map.mpr ⟨x, hx, h.symm⟩)
      refine forall_moments_congr ?_ (hstays.2 x hx)
      rw [← htaken, count_erase, if_neg hkey, Nat.sub_zero]
    calc ((t.changeAll ((s :: symbols).map .declare)).changeAll cs).changeAll
          ((s :: symbols).map .erase)
      _ = (((t.changeAll ((s :: symbols).map .declare)).changeAll cs).erase s).changeAll
          (symbols.map .erase) := rfl
      _ = ((t.changeAll (symbols.map .declare)).changeAll cs).changeAll (symbols.map .erase) := by
        rw [erase_changeAll hstays.1, htaken]
      _ = t.changeAll cs := ih hdistinct hfresh.2 hothers

/-- A scope whose block does not ask to remove its entries leaves the tables as its block does. -/
theorem Step.tables_run_within {symbols : List Symbol} {block : List Step}
    (hdistinct : (symbols.map Symbol.key).Nodup) (hfresh : ∀ s ∈ symbols, t.holds s = false)
    (hkept : ∀ x ∈ Step.removalsAll block, x.key ∉ symbols.map Symbol.key) :
    (Step.run t (.within symbols block)).tables = (Step.runBlock t block).tables := by
  rw [Step.run_eq_changeAll, Step.runBlock_eq_changeAll, Step.changes, changeAll_append,
    changeAll_append]
  refine eraseAll_changeAll_declareAll hdistinct hfresh fun s hs u hu => ?_
  have hkey : s.key ∈ symbols.map Symbol.key := List.mem_map_of_mem hs
  refine Step.le_count_of_mem_momentsAll block (fun x hx h => hkept x hx (h ▸ hkey)) ?_ hu
  rw [count_declareAll]
  exact Nat.le_add_left_of_le (List.count_pos_iff.mpr hkey)

/-- A scope fails exactly if its block does. -/
theorem Step.failed_run_within (t : Tables) (symbols : List Symbol) (block : List Step) :
    (Step.run t (.within symbols block)).failed = (Step.runBlock t block).failed := by
  rw [Step.failed_run, Step.failed_runBlock, Step.fails]

/-- A scope that is left early behind its block leaves the tables as one that is not. -/
theorem Step.tables_run_scope (t : Tables) (symbols : List Symbol) (block : List Step)
    (leftEarly : Bool) : (Step.run t (.scope symbols block leftEarly)).tables =
      (Step.run t (.within symbols block)).tables := by
  cases leftEarly with
  | false => rfl
  | true =>
    have hfails : (Step.within symbols (block ++ [.fail])).fails = true := by
      rw [← Step.failed_run t, Step.failed_run_within, Step.runBlock_append_fail]
    show (Step.runBlock t [.within symbols (block ++ [.fail])]).tables = _
    rw [Step.runBlock_of_fails hfails, Step.run, Step.run, Step.runBlock_append_fail]

/-- The failure that leaves a scope early is caught behind it. -/
theorem Step.failed_run_scope (t : Tables) (symbols : List Symbol) (block : List Step)
    (leftEarly : Bool) : (Step.run t (.scope symbols block leftEarly)).failed =
      (!leftEarly && (Step.runBlock t block).failed) := by
  cases leftEarly with
  | false => exact Step.failed_run_within t symbols block
  | true => rfl

/-- The entries of a kind that changes declare, one after the other. -/
def declared (kind : SymbolKind) (cs : List Change) : List Symbol :=
  (cs.filterMap Change.declared?).filter fun s => s.kind = kind

/-- At each moment a table lists the entries that it still has in the order in which they have been
declared. -/
theorem sublist_of_mem_moments (kind : SymbolKind) (hu : u ∈ t.moments cs) :
    (u.symbols kind).Sublist (t.symbols kind ++ declared kind cs) := by
  induction cs generalizing t with
  | nil =>
    obtain rfl := List.mem_singleton.mp hu
    exact List.sublist_append_left _ _
  | cons c cs ih =>
    obtain rfl | hu := List.mem_cons.mp hu
    · exact List.sublist_append_left _ _
    · cases c with
      | declare s =>
        have hrest := ih (t := t.declare s) hu
        rwa [symbols_declare, List.append_assoc, declared, ← List.filter_append] at hrest
      | erase s =>
        have hrest := ih (t := t.erase s) hu
        rw [symbols_erase] at hrest
        exact hrest.trans (List.eraseP_sublist.append (List.Sublist.refl _))

/-- An entry of a table in front of which no entry has its name. -/
def IsOldest (t : Tables) (kind : SymbolKind) (name : String) (s : Symbol) : Prop :=
  Oldest (t.symbols kind) name s

theorem lookup?_eq_some_iff {kind : SymbolKind} {name : String} :
    t.lookup? kind name = some s ↔ t.IsOldest kind name s := by
  rw [lookup?_eq_find?]
  exact find?_eq_some_iff_oldest

theorem lookup?_eq_none_iff {kind : SymbolKind} {name : String} :
    t.lookup? kind name = none ↔ ∀ x ∈ t.symbols kind, x.name ≠ name := by
  rw [lookup?_eq_find?, List.find?_eq_none]
  simp only [decide_eq_true_eq, ne_eq]

theorem lookup?_declare {kind : SymbolKind} {name : String} (new : Symbol)
    (h : (t.lookup? kind name).isSome) :
    (t.declare new).lookup? kind name = t.lookup? kind name := by
  rw [lookup?_eq_find?] at h
  rw [lookup?_eq_find?, lookup?_eq_find?, symbols_declare, List.find?_append, Option.or_of_isSome h]

/--
Scopes are transparent.  A scope declares distinct entries that are not in the tables, and its block
asks to remove none of them: it may look up, declare and remove entries, also of the same names,
open further scopes, to any depth, and fail anywhere, inside of further scopes too.  Then the tables
behind the scope are those that the block alone leaves, entry by entry and in the same order, and
the scope fails exactly if the block does.  So it is with a failure behind the block that is caught
behind the scope (`Step.scope`).

At each moment of a history, inside of its scopes too, every table lists its entries in the order in
which they have been declared, an entry that is looked up is the oldest one of its name, and one is
found if there is any; no declaration changes what a found name stands for.
-/
theorem scope_transparent (t : Tables) (symbols : List Symbol) (block : List Step)
    (leftEarly : Bool) (hdistinct : (symbols.map Symbol.key).Nodup)
    (hfresh : ∀ s ∈ symbols, t.holds s = false)
    (hkept : ∀ x ∈ Step.removalsAll block, x.key ∉ symbols.map Symbol.key) :
    ((Step.run t (.within symbols block)).tables = (Step.runBlock t block).tables ∧
      (Step.run t (.within symbols block)).failed = (Step.runBlock t block).failed) ∧
    ((Step.run t (.scope symbols block leftEarly)).tables = (Step.runBlock t block).tables ∧
      (Step.run t (.scope symbols block leftEarly)).failed =
        (!leftEarly && (Step.runBlock t block).failed)) ∧
    ∀ (start : Tables) (steps : List Step),
      (Step.runAll start steps).2 ∈ start.moments (Step.changesAll steps) ∧
      (∀ a ∈ (Step.runAll start steps).1, a.2 ∈ start.moments (Step.changesAll steps)) ∧
      ∀ u ∈ start.moments (Step.changesAll steps), ∀ (kind : SymbolKind) (name : String),
        (u.symbols kind).Sublist
          (start.symbols kind ++ declared kind (Step.changesAll steps)) ∧
        (∀ s, u.lookup? kind name = some s ↔ u.IsOldest kind name s) ∧
        (u.lookup? kind name = none ↔ ∀ x ∈ u.symbols kind, x.name ≠ name) ∧
        ((u.lookup? kind name).isSome → ∀ new : Symbol,
          (u.declare new).lookup? kind name = u.lookup? kind name) := by
  have htables : (Step.run t (.within symbols block)).tables = (Step.runBlock t block).tables :=
    Step.tables_run_within hdistinct hfresh hkept
  refine ⟨⟨htables, Step.failed_run_within t symbols block⟩,
    ⟨(Step.tables_run_scope t symbols block leftEarly).trans htables,
      Step.failed_run_scope t symbols block leftEarly⟩, fun start steps => ⟨?_, ?_, ?_⟩⟩
  · rw [Step.runAll, Step.runBlock_eq_changeAll]
    exact changeAll_mem_moments start _
  · exact Step.mem_moments_of_mem_runBlock start steps
  · intro u hu kind name
    exact ⟨sublist_of_mem_moments kind hu, fun s => lookup?_eq_some_iff, lookup?_eq_none_iff,
      fun h new => lookup?_declare new h⟩

/-- Scopes in each other, of entries of one name, both left by one failure; the entries that were
there before are removed inside of them, and what stands behind the failure is not declared. -/
theorem scope_transparent_nested :
    let var (id : Nat) (name : String) : Symbol :=
      .variable ⟨id, name, "i32", .literal ⟨"p", 0, 0⟩ "0" .number⟩
    let t : Tables := (({} : Tables).declare (var 0 "x")).declare (var 1 "y")
    let block : List Step :=
      [.declare (var 4 "x"), .erase (var 0 "x"),
        .within [var 5 "x"] [.declare (var 6 "y"), .erase (var 1 "y"), .fail],
        .declare (var 7 "z")]
    ((Step.run t (.within [var 2 "x", var 3 "x"] block)).tables = (Step.runBlock t block).tables ∧
      (Step.run t (.within [var 2 "x", var 3 "x"] block)).failed =
        (Step.runBlock t block).failed) ∧
      (Step.runBlock t block).tables.ids .variable = [4, 6] ∧
      (Step.runBlock t block).failed = true := by
  intro var t block
  have hdistinct : ([var 2 "x", var 3 "x"].map Symbol.key).Nodup := by decide
  have hfresh : ∀ s ∈ [var 2 "x", var 3 "x"], t.holds s = false := by
    rw [List.forall_mem_cons, List.forall_mem_singleton]
    exact ⟨rfl, rfl⟩
  have hkept : ∀ s ∈ Step.removalsAll block, s.key ∉ [var 2 "x", var 3 "x"].map Symbol.key := by
    show ∀ s ∈ [var 0 "x", var 1 "y"], s.key ∉ [var 2 "x", var 3 "x"].map Symbol.key
    rw [List.forall_mem_cons, List.forall_mem_singleton]
    decide
  exact ⟨(scope_transparent t _ block true hdistinct hfresh hkept).1, rfl, rfl⟩

end Changes

end Tables
end ScriptFront
