import Mathlib.Data.List.Induction
import ScriptFront.Proofs.Values.Fields

/-!
# The laws of rebinding

A field is found by the first place at which its name is declared, while the bindings of an instance
stand in a row that may be shorter than the list of declared fields.  Reading a field and binding it
anew still go together like reading and writing a cell of a store: what is written is read, other
cells stay, the last of several writes counts, and writes to different cells may change places.

**Results.**

* `field?_eq_none_iff`, `withField?_eq_none_iff`: which fields can be read, and which bound anew.
* `withField?_withField?_self`, `withField?_comm`, `withField?_field?`: two updates, and none.
* `field?_withFields`: each field after a sequence of updates.
* `exists_withFields_of_mem_collect`: what a new instance is made of.
* `rebinding_laws`: all laws together.
-/

namespace ScriptFront
namespace Instance

variable {α : Type} {v w : Instance α} {name other : String} {value : α}

/-- The instance after several fields have been bound anew, one after the other; a name that has no
binding is passed over. -/
def withFields (v : Instance α) (updates : List (String × α)) : Instance α :=
  updates.foldl (fun w u => (w.withField? u.1 u.2).getD w) v

/-- The instances that there are after some updates, in the order in which they are made.  Each
update says by its place which of them is to be changed. -/
def collect (made : List (Instance α)) (updates : List (Nat × String × α)) : List (Instance α) :=
  updates.foldl (fun made u =>
    made ++ (made[u.1]?.bind fun v => v.withField? u.2.1 u.2.2).toList) made

section Places

theorem slot?_eq_some_iff {i : Nat} :
    v.slot? name = some i ↔ v.struct.fieldIndex? name = some i ∧ i < v.fields.length := by
  unfold slot?
  rw [Option.filter_eq_some_iff, decide_eq_true_eq]

/-- What is read is the binding at the first place of the name, if there is one. -/
theorem field?_of_declaresFirst {i : Nat} (hi : v.struct.DeclaresFirst name i) :
    v.field? name = v.fields[i]? := by
  rw [← StructDef.fieldIndex?_eq_some_iff] at hi
  unfold field? slot?
  rw [hi, Option.filter_some]
  by_cases hlt : i < v.fields.length
  · rw [if_pos (decide_eq_true hlt), Option.bind_some]
  · rw [if_neg (by simpa using hlt), Option.bind_none, List.getElem?_eq_none (Nat.not_lt.mp hlt)]

/-- A field has no binding exactly if it is not declared, or declared behind the last binding. -/
theorem field?_eq_none_iff :
    v.field? name = none ↔ ∀ i, v.struct.DeclaresFirst name i → v.fields.length ≤ i := by
  simp only [← StructDef.fieldIndex?_eq_some_iff]
  unfold field?
  cases hslot : v.slot? name with
  | none =>
    refine iff_of_true rfl fun i hi => Nat.not_lt.mp fun hlt => ?_
    rw [slot?_eq_some_iff.mpr ⟨hi, hlt⟩] at hslot
    cases hslot
  | some i =>
    obtain ⟨hindex, hlt⟩ := slot?_eq_some_iff.mp hslot
    refine iff_of_false ?_ fun h => absurd (h i hindex) (Nat.not_le.mpr hlt)
    simp [hlt]

/-- The fields that cannot be bound anew are those without a binding. -/
theorem withField?_eq_none_iff : v.withField? name value = none ↔ v.field? name = none := by
  rw [← Option.not_isSome_iff_eq_none, ← Option.not_isSome_iff_eq_none, withField?_isSome]

theorem withField?_eq_some_iff : v.withField? name value = some w ↔
    ∃ i, v.slot? name = some i ∧ { v with fields := v.fields.modify i (·.rebind value) } = w :=
  Option.map_eq_some_iff

end Places

section Updates

/-- Names and types of the bindings stay, and so does their number. -/
theorem typed_withField? (h : v.withField? name value = some w) :
    w.struct = v.struct ∧ w.fields.map Binding.typed = v.fields.map Binding.typed := by
  obtain ⟨i, _, rfl⟩ := withField?_eq_some_iff.mp h
  refine ⟨rfl, List.ext_getElem? fun j => ?_⟩
  rw [List.getElem?_map, List.getElem?_map, List.getElem?_modify]
  cases v.fields[j]? with
  | none => rfl
  | some b =>
    show some (Binding.typed (if i = j then b.rebind value else b)) = some b.typed
    split <;> rfl

/-- Only the first place of the name is changed. -/
theorem getElem?_withField?_of_not_first (h : v.withField? name value = some w) {i : Nat}
    (hi : ¬ v.struct.DeclaresFirst name i) : w.fields[i]? = v.fields[i]? := by
  rw [← StructDef.fieldIndex?_eq_some_iff] at hi
  obtain ⟨j, hslot, rfl⟩ := withField?_eq_some_iff.mp h
  have hji : j ≠ i := fun hji => hi (hji ▸ (slot?_eq_some_iff.mp hslot).1)
  show (v.fields.modify j (·.rebind value))[i]? = v.fields[i]?
  rw [List.getElem?_modify]
  simp [hji]

/-- The second of two updates of a field counts. -/
theorem withField?_withField?_self (h : v.withField? name value = some w) (value' : α) :
    w.withField? name value' = v.withField? name value' := by
  have hslot : ((v.withField? name value).getD v).slot? name = v.slot? name :=
    slot?_withField? value name
  rw [h, Option.getD_some] at hslot
  unfold withField?
  rw [hslot]
  obtain ⟨i, hi, rfl⟩ := withField?_eq_some_iff.mp h
  simp only [hi, Option.map_some, List.modify_modify_eq]
  rfl

/-- Updates of two fields may change places. -/
theorem withField?_comm (hne : other ≠ name) (value' : α) :
    (v.withField? name value).bind (·.withField? other value') =
      (v.withField? other value').bind (·.withField? name value) := by
  have hslot (field : String) (i : Nat) (f : Binding α → Binding α) :
      slot? { v with fields := v.fields.modify i f } field = v.slot? field := by
    unfold slot?
    rw [List.length_modify]
  unfold withField?
  cases hname : v.slot? name with
  | none =>
    cases hother : v.slot? other with
    | none => rfl
    | some j => simp only [Option.map_none, Option.map_some, Option.bind_none, Option.bind_some,
        hslot, hname]
  | some i =>
    cases hother : v.slot? other with
    | none => simp only [Option.map_none, Option.map_some, Option.bind_none, Option.bind_some,
        hslot, hother]
    | some j =>
      have hij : i ≠ j := fun hij => hne (eq_of_slot? hname (hij ▸ hother))
      simp only [Option.map_some, Option.bind_some, hslot, hname, hother,
        List.modify_modify_ne _ _ _ hij]

/-- Writing back what is read changes nothing. -/
theorem withField?_field? {b : Binding α} (h : v.field? name = some b) :
    v.withField? name b.value = some v := by
  obtain ⟨i, hslot, hget⟩ := Option.bind_eq_some_iff.mp h
  refine withField?_eq_some_iff.mpr ⟨i, hslot, ?_⟩
  have hsame : v.fields.modify i (·.rebind b.value) = v.fields := by
    refine List.ext_getElem? fun j => ?_
    rw [List.getElem?_modify]
    by_cases hij : i = j
    · subst hij
      rw [hget]
      simp [Binding.rebind]
    · simp [hij]
  rw [hsame]

end Updates

section Sequences

variable {updates : List (String × α)}

theorem withFields_concat (updates : List (String × α)) (u : String × α) :
    v.withFields (updates ++ [u]) =
      ((v.withFields updates).withField? u.1 u.2).getD (v.withFields updates) := by
  unfold withFields
  rw [List.foldl_append]
  rfl

/-- After a sequence of updates a field has the last value that it is given there, and the one that
it had if there is none. -/
theorem field?_withFields (v : Instance α) (updates : List (String × α)) (name : String) :
    (v.withFields updates).field? name =
      (v.field? name).map fun b => b.rebind ((updates.reverse.lookup name).getD b.value) := by
  induction updates using List.reverseRecOn with
  | nil =>
    show v.field? name = _
    cases v.field? name <;> rfl
  | append_singleton updates u ih =>
    rw [withFields_concat, List.reverse_append, List.reverse_singleton, List.singleton_append]
    by_cases hu : name = u.1
    · rw [List.lookup_cons, beq_iff_eq.mpr hu]
      subst hu
      cases hfield : v.field? u.1 with
      | none =>
        rw [hfield, Option.map_none] at ih
        rw [withField?_eq_none_iff.mpr ih, Option.getD_none, ih, Option.map_none]
      | some b =>
        rw [hfield, Option.map_some] at ih
        rw [field?_withField?_self ih u.2]
        rfl
    · rw [List.lookup_cons, beq_eq_false_iff_ne.mpr hu, field?_withField?_of_ne hu, ih]

/-- A sequence of updates keeps the names and types of the bindings, and leaves every place that is
not the first one of an updated name. -/
theorem struct_withFields (v : Instance α) (updates : List (String × α)) :
    (v.withFields updates).struct = v.struct ∧
      (v.withFields updates).fields.map Binding.typed = v.fields.map Binding.typed ∧
      ∀ i, (∀ u ∈ updates, ¬ v.struct.DeclaresFirst u.1 i) →
        (v.withFields updates).fields[i]? = v.fields[i]? := by
  induction updates using List.reverseRecOn with
  | nil => exact ⟨rfl, rfl, fun _ _ => rfl⟩
  | append_singleton updates u ih =>
    obtain ⟨hstruct, htyped, hfields⟩ := ih
    have hearlier (i : Nat) (hi : ∀ x ∈ updates ++ [u], ¬ v.struct.DeclaresFirst x.1 i) :
        (v.withFields updates).fields[i]? = v.fields[i]? :=
      hfields i fun x hx => hi x (List.mem_append_left [u] hx)
    rw [withFields_concat]
    cases hnext : (v.withFields updates).withField? u.1 u.2 with
    | none => exact ⟨hstruct, htyped, hearlier⟩
    | some w =>
      obtain ⟨hsame, hsame'⟩ := typed_withField? hnext
      refine ⟨hsame.trans hstruct, hsame'.trans htyped, fun i hi => ?_⟩
      have hu : ¬ (v.withFields updates).struct.DeclaresFirst u.1 i :=
        hstruct ▸ hi u (List.mem_append_right updates List.mem_cons_self)
      exact (getElem?_withField?_of_not_first hnext hu).trans (hearlier i hi)

/-- Updates only add to the instances that there are. -/
theorem prefix_collect (made : List (Instance α)) (updates : List (Nat × String × α)) :
    made <+: collect made updates := by
  induction updates using List.reverseRecOn with
  | nil => exact List.prefix_rfl
  | append_singleton updates u ih =>
    unfold collect at ih ⊢
    rw [List.foldl_append]
    exact ih.trans (List.prefix_append _ _)

/-- Each instance is one of those that there were before, after some of the updates in their
order. -/
theorem exists_withFields_of_mem_collect {made : List (Instance α)}
    {updates : List (Nat × String × α)} (hw : w ∈ collect made updates) :
    ∃ v ∈ made, ∃ us : List (String × α), us.Sublist (updates.map Prod.snd) ∧
      v.withFields us = w := by
  induction updates using List.reverseRecOn generalizing w with
  | nil => exact ⟨w, hw, [], List.Sublist.refl _, rfl⟩
  | append_singleton updates u ih =>
    unfold collect at ih hw
    rw [List.foldl_append] at hw
    rw [List.map_append]
    obtain hw | hw := List.mem_append.mp hw
    · obtain ⟨v, hv, us, hus, rfl⟩ := ih hw
      exact ⟨v, hv, us, hus.trans (List.sublist_append_left _ _), rfl⟩
    · obtain ⟨w', hw', hnext⟩ := Option.bind_eq_some_iff.mp (Option.mem_toList.mp hw)
      obtain ⟨v, hv, us, hus, rfl⟩ := ih (List.mem_of_getElem? hw')
      refine ⟨v, hv, us ++ [u.2], hus.append (List.Sublist.refl _), ?_⟩
      rw [withFields_concat, hnext, Option.getD_some]

end Sequences

/--
The laws of reading the field `n` of an instance and of binding it anew, whether names are declared
once or several times, and whether all fields have bindings or only the first ones.  What is read
stands at the place at which the name is declared first.  An update succeeds exactly where there is
something to read; it keeps the number of bindings, their names and their types, and changes the
first place of its name only.  Of two updates of one field the second counts; updates of two fields
may change places; to write back what has been read is no change.  After a sequence of updates each
field has the last value that it was given, and every place but those of the updated names is as it
was.

Where each update is of one of the instances that there are, and adds one to them, those that there
were before stay, the original one among them, and a new one has the fields of one of these, after
some of the updates in their order.
-/
theorem rebinding_laws (v : Instance α) :
    (∀ n i, v.struct.DeclaresFirst n i → v.field? n = v.fields[i]?) ∧
    (∀ n, v.field? n = none ↔ ∀ i, v.struct.DeclaresFirst n i → v.fields.length ≤ i) ∧
    (∀ n x, v.withField? n x = none ↔ v.field? n = none) ∧
    (∀ n x w, v.withField? n x = some w →
      (w.struct = v.struct ∧ w.fields.length = v.fields.length ∧
        w.fields.map Binding.typed = v.fields.map Binding.typed) ∧
      (∃ b, v.field? n = some b ∧ w.field? n = some (b.rebind x)) ∧
      (∀ m, m ≠ n → w.field? m = v.field? m) ∧
      (∀ i, ¬ v.struct.DeclaresFirst n i → w.fields[i]? = v.fields[i]?) ∧
      ∀ y, w.withField? n y = v.withField? n y) ∧
    (∀ n m x y, m ≠ n → (v.withField? n x).bind (·.withField? m y) =
      (v.withField? m y).bind (·.withField? n x)) ∧
    (∀ n b, v.field? n = some b → v.withField? n b.value = some v) ∧
    (∀ updates n, (v.withFields updates).field? n =
      (v.field? n).map fun b => b.rebind ((updates.reverse.lookup n).getD b.value)) ∧
    (∀ updates i, (∀ u ∈ updates, ¬ v.struct.DeclaresFirst u.1 i) →
      (v.withFields updates).fields[i]? = v.fields[i]?) ∧
    ∀ (made : List (Instance α)) updates, made <+: collect made updates ∧
      ∀ w ∈ collect made updates, ∃ u ∈ made, ∃ us : List (String × α),
        us.Sublist (updates.map Prod.snd) ∧ w.struct = u.struct ∧
        w.fields.map Binding.typed = u.fields.map Binding.typed ∧
        ∀ n, w.field? n =
          (u.field? n).map fun b => b.rebind ((us.reverse.lookup n).getD b.value) := by
  refine ⟨fun n i => field?_of_declaresFirst, fun n => field?_eq_none_iff,
    fun n x => withField?_eq_none_iff, fun n x w h => ?_,
    fun n m x y hne => withField?_comm hne y, fun n b h => withField?_field? h,
    v.field?_withFields, fun updates i hi => (v.struct_withFields updates).2.2 i hi,
    fun made updates => ⟨prefix_collect made updates, fun w hw => ?_⟩⟩
  · have hget : (v.withField? n x).getD v = w := by rw [h, Option.getD_some]
    refine ⟨⟨(typed_withField? h).1, length_fields_of_withField? h, (typed_withField? h).2⟩, ?_,
      fun m hne => hget ▸ field?_withField?_of_ne hne x,
      fun i hi => getElem?_withField?_of_not_first h hi,
      fun y => withField?_withField?_self h y⟩
    have hsome : (v.field? n).isSome := by rw [← withField?_isSome, h, Option.isSome_some]
    obtain ⟨b, hb⟩ := Option.isSome_iff_exists.mp hsome
    exact ⟨b, hb, hget ▸ field?_withField?_self hb x⟩
  · obtain ⟨u, hu, us, hus, rfl⟩ := exists_withFields_of_mem_collect hw
    obtain ⟨hstruct, htyped, -⟩ := u.struct_withFields us
    exact ⟨u, hu, us, hus, hstruct, htyped, u.field?_withFields us⟩

/-- Of a name that is declared twice the first place is read and changed, and a field without a
binding stays without one. -/
theorem rebinding_laws_repeated :
    let s : StructDef := ⟨"P", [⟨"a", "i32"⟩, ⟨"b", "i32"⟩, ⟨"a", "i32"⟩, ⟨"c", "i32"⟩]⟩
    let v : Instance Nat := ⟨s, [⟨"a", "i32", 1⟩, ⟨"b", "i32", 2⟩, ⟨"a", "i32", 3⟩]⟩
    let w : Instance Nat := ⟨s, [⟨"a", "i32", 9⟩, ⟨"b", "i32", 2⟩, ⟨"a", "i32", 3⟩]⟩
    (v.field? "a" = v.fields[0]? ∧ v.withField? "a" 9 = some w ∧ w.fields[2]? = v.fields[2]?) ∧
      v.field? "c" = none ∧ v.withField? "c" 9 = none := by
  intro s v w
  obtain ⟨hread, hunread, hnone, hupdate, -⟩ := rebinding_laws v
  have hfirst : s.DeclaresFirst "a" 0 ∧ ¬ s.DeclaresFirst "a" 2 := by decide
  have hw : v.withField? "a" 9 = some w := by decide
  have hc : v.field? "c" = none := by
    refine (hunread "c").mpr fun i hi => ?_
    obtain ⟨hat, -⟩ := hi
    match i with
    | 0 | 1 | 2 => exact absurd hat (by decide)
    | _ + 3 => exact Nat.le_add_left 3 _
  exact ⟨⟨hread "a" 0 hfirst.1, hw, (hupdate "a" 9 w hw).2.2.2.1 2 hfirst.2⟩, hc,
    (hnone "c" 9).mpr hc⟩

end Instance
end ScriptFront
