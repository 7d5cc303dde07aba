/-!
# Tables of declarations

A table is a flat list of entries in the order of their declaration.  It is searched from the
front, so of several entries with one name only the oldest is found.  An entry has an identity
besides its name: removing an entry removes that entry and no other one of its name.

**Results.**

* `find?_eq_some_iff_oldest`: the element that is found by its name is the oldest one of it.
* `entries_eraseAll_between`: removing entries takes out the stretch of the table where they stand.
-/

namespace ScriptFront

/-- Declarations have a name. -/
class Named (α : Type) where
  name : α → String

/-- A declaration with its identity. -/
structure Entry (α : Type) where
  id : Nat
  decl : α
deriving DecidableEq

instance {α : Type} [Named α] : Named (Entry α) := ⟨fun e => Named.name e.decl⟩

/-- An element of a name in front of which no other one has the name. -/
def Oldest {α : Type} [Named α] (l : List α) (name : String) (x : α) : Prop :=
  Named.name x = name ∧ ∃ older newer, l = older ++ x :: newer ∧
    ∀ y ∈ older, Named.name y ≠ name

/-- The element that is found by its name is the oldest one of it. -/
theorem find?_eq_some_iff_oldest {α : Type} [Named α] {l : List α} {name : String} {x : α} :
    l.find? (fun y => Named.name y = name) = some x ↔ Oldest l name x := by
  rw [List.find?_eq_some_iff_append]
  unfold Oldest
  simp only [decide_eq_true_eq, Bool.not_eq_true', decide_eq_false_iff_not, ne_eq]

/-- The entries of a table, oldest first. -/
structure SymbolTable (α : Type) where
  entries : List (Entry α) := []
deriving DecidableEq

namespace SymbolTable

variable {α : Type}

/-- How many entries the table has. -/
def size (t : SymbolTable α) : Nat :=
  t.entries.length

/-- Appends an entry. -/
def declare (t : SymbolTable α) (e : Entry α) : SymbolTable α :=
  ⟨t.entries ++ [e]⟩

/-- Appends several entries. -/
def declareAll (t : SymbolTable α) (es : List (Entry α)) : SymbolTable α :=
  es.foldl declare t

/-- The entry with an identity is in the table. -/
def holds (t : SymbolTable α) (id : Nat) : Bool :=
  t.entries.any fun e => e.id == id

/-- Removes the entry with an identity, if it is in the table. -/
def erase (t : SymbolTable α) (id : Nat) : SymbolTable α :=
  ⟨t.entries.eraseP fun e => e.id == id⟩

/-- Removes several entries. -/
def eraseAll (t : SymbolTable α) (es : List (Entry α)) : SymbolTable α :=
  es.foldl (fun t e => t.erase e.id) t

/-- The declaration with an identity. -/
def get? (t : SymbolTable α) (id : Nat) : Option α :=
  (t.entries.find? fun e => e.id == id).map Entry.decl

/-- Changes the declaration with an identity in its place. -/
def update (t : SymbolTable α) (id : Nat) (f : α → α) : SymbolTable α :=
  ⟨t.entries.map fun e => if e.id = id then { e with decl := f e.decl } else e⟩

section Names

variable [Named α]

/-- The oldest entry of a name. -/
def lookup? (t : SymbolTable α) (name : String) : Option (Entry α) :=
  t.entries.find? fun e => Named.name e.decl = name

/-- Some entry has the name. -/
def contains (t : SymbolTable α) (name : String) : Bool :=
  (t.lookup? name).isSome

/-- The names of all entries, oldest first. -/
def names (t : SymbolTable α) : List String :=
  t.entries.map fun e => Named.name e.decl

/-- An entry of a name in front of which no other one has the name. -/
def IsOldest (t : SymbolTable α) (name : String) (e : Entry α) : Prop :=
  Oldest t.entries name e

end Names

@[simp] theorem entries_declare (t : SymbolTable α) (e : Entry α) :
    (t.declare e).entries = t.entries ++ [e] := rfl

theorem entries_declareAll (t : SymbolTable α) (es : List (Entry α)) :
    (t.declareAll es).entries = t.entries ++ es := by
  induction es generalizing t with
  | nil => simp [declareAll]
  | cons e es ih =>
    have h := ih (t.declare e)
    simp only [declareAll, List.foldl_cons] at h ⊢
    simp [h]

theorem name_of_lookup? [Named α] {t : SymbolTable α} {name : String} {e : Entry α}
    (h : t.lookup? name = some e) : Named.name e.decl = name := by
  simpa using List.find?_some h

/-- The entry that is found is the oldest one of its name. -/
theorem lookup?_eq_some_iff [Named α] {t : SymbolTable α} {name : String} {e : Entry α} :
    t.lookup? name = some e ↔ t.IsOldest name e :=
  find?_eq_some_iff_oldest

theorem lookup?_eq_none_iff [Named α] {t : SymbolTable α} {name : String} :
    t.lookup? name = none ↔ name ∉ t.names := by
  unfold lookup? names
  simp

theorem mem_of_lookup? [Named α] {t : SymbolTable α} {name : String} {e : Entry α}
    (h : t.lookup? name = some e) : e ∈ t.entries :=
  List.mem_of_find?_eq_some h

theorem entries_erase_append {t : SymbolTable α} {es fs : List (Entry α)} {e : Entry α}
    (ht : t.entries = es ++ e :: fs) (hfresh : ∀ x ∈ es, x.id ≠ e.id) :
    (t.erase e.id).entries = es ++ fs := by
  simp only [erase, ht]
  rw [List.eraseP_append_right]
  · simp
  · intro x hx
    simpa using hfresh x hx

/-- Removing entries by their identities takes out the stretch of the table where they stand. -/
theorem entries_eraseAll_between {t : SymbolTable α} {as bs cs es : List (Entry α)}
    (ht : t.entries = as ++ bs ++ cs) (hids : bs.map Entry.id = es.map Entry.id)
    (hfresh : ∀ x ∈ as, ∀ e ∈ es, x.id ≠ e.id) : (t.eraseAll es).entries = as ++ cs := by
  induction es generalizing t bs with
  | nil =>
    obtain rfl := List.map_eq_nil_iff.mp hids
    simpa [eraseAll] using ht
  | cons e es ih =>
    obtain ⟨b, bs', rfl, hid, hids'⟩ := List.map_eq_cons_iff.mp hids
    have herase : (t.erase e.id).entries = as ++ bs' ++ cs := by
      rw [← hid, List.append_assoc]
      refine entries_erase_append ?_ fun x hx => ?_
      · simpa using ht
      · rw [hid]
        exact hfresh x hx e List.mem_cons_self
    exact ih herase hids' fun x hx f hf => hfresh x hx f (List.mem_cons_of_mem e hf)

theorem entries_eraseAll_sublist (t : SymbolTable α) (es : List (Entry α)) :
    (t.eraseAll es).entries.Sublist t.entries := by
  induction es generalizing t with
  | nil => exact List.Sublist.refl _
  | cons e es ih => exact (ih (t.erase e.id)).trans List.eraseP_sublist

end SymbolTable
end ScriptFront
