import ScriptFront.Proofs.Surface.Instances

/-!
# One field of an instance is bound anew

Binding a field anew gives that field its new value, with the name and type that it had, and leaves
every field of another name as it is.

**Results.**

* `Instance.field?_withField?_self`: the field that is bound anew.
* `Instance.field?_withField?_of_ne`: all other fields.
-/

namespace ScriptFront
namespace Instance

variable {α : Type} {v : Instance α} {name : String}

theorem slot?_withField? (value : α) (other : String) :
    ((v.withField? name value).getD v).slot? other = v.slot? other := by
  unfold withField?
  cases v.slot? name with
  | none => rfl
  | some i => simp [slot?]

/-- The field at a place has one name only. -/
theorem eq_of_slot? {other : String} {i : Nat} (h : v.slot? name = some i)
    (hother : v.slot? other = some i) : other = name := by
  have name_of_slot {field : String} (h : v.slot? field = some i) :
      ∃ hi : i < v.struct.fields.length, v.struct.fields[i].name = field := by
    have hindex := (Option.filter_eq_some_iff.mp h).1
    obtain ⟨hi, hname, _⟩ := List.findIdx?_eq_some_iff_getElem.mp hindex
    exact ⟨hi, by simpa using hname⟩
  obtain ⟨_, hname⟩ := name_of_slot h
  obtain ⟨_, hname'⟩ := name_of_slot hother
  rw [← hname, ← hname']

theorem field?_withField?_self {b : Binding α} (h : v.field? name = some b) (value : α) :
    ((v.withField? name value).getD v).field? name = some (b.rebind value) := by
  obtain ⟨i, hslot, hget⟩ := Option.bind_eq_some_iff.mp h
  unfold Instance.field?
  rw [slot?_withField?, hslot]
  unfold withField?
  rw [hslot]
  simp [List.getElem?_modify, hget]

theorem field?_withField?_of_ne {other : String} (h : other ≠ name) (value : α) :
    ((v.withField? name value).getD v).field? other = v.field? other := by
  unfold Instance.field?
  rw [slot?_withField?]
  cases hother : v.slot? other with
  | none => rfl
  | some j =>
    unfold withField?
    cases hslot : v.slot? name with
    | none => rfl
    | some i =>
      have hij : i ≠ j := fun hij => h (eq_of_slot? hslot (hij ▸ hother))
      simp [List.getElem?_modify, hij]

/-- The bindings of the new instance are the old ones, or the one that is bound anew. -/
theorem mem_fields_withField? {b : Binding α} {value : α}
    (h : b ∈ ((v.withField? name value).getD v).fields) : b ∈ v.fields ∨ b.value = value := by
  unfold withField? at h
  cases hslot : v.slot? name with
  | none =>
    rw [hslot] at h
    exact .inl h
  | some i =>
    rw [hslot] at h
    obtain ⟨j, hj⟩ := List.mem_iff_getElem?.mp h
    simp only [Option.map_some, Option.getD_some, List.getElem?_modify] at hj
    obtain ⟨c, hc, rfl⟩ := Option.map_eq_some_iff.mp hj
    by_cases hij : i = j
    · exact .inr (by simp [hij, Binding.rebind])
    · exact .inl (by simpa [hij] using List.mem_of_getElem? hc)

end Instance
end ScriptFront
