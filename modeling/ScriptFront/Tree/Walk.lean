import ScriptFront.Tree.Basic

/-!
# Walking through a tree

A walk visits an expression before the expressions directly inside it and may stop at chosen
forms, whose insides it leaves out.

**Results.**

* `Expr.sizeOf_lt_of_mem_children`: what is directly inside an expression is smaller.
-/

namespace ScriptFront
namespace Expr

theorem sizeOf_value_lt_of_mem {b : Binding Expr} {bs : List (Binding Expr)} (h : b ∈ bs) :
    sizeOf b.value < sizeOf bs := by
  have hb := List.sizeOf_lt_of_mem h
  obtain ⟨name, typeName, value⟩ := b
  simp only [Binding.mk.sizeOf_spec] at hb
  simp only
  omega

theorem sizeOf_proc_lt_of_mem {p : Proc Expr} {ps : List (Proc Expr)} (h : p ∈ ps) :
    sizeOf (procDef p) ≤ sizeOf ps := by
  have hp := List.sizeOf_lt_of_mem h
  simp only [procDef.sizeOf_spec]
  omega

/-- What is directly inside an expression is smaller than the expression. -/
theorem sizeOf_lt_of_mem_children {c e : Expr} (h : c ∈ e.children) : sizeOf c < sizeOf e := by
  cases e with
  | literal | structDef | fieldAccess => simp [children] at h
  | reference pos binding =>
    obtain ⟨name, typeName, value⟩ := binding
    simp only [children, List.mem_singleton] at h
    subst h
    simp only [reference.sizeOf_spec, Binding.mk.sizeOf_spec]
    omega
  | letStatement pos name typeName value =>
    simp only [children, List.mem_singleton] at h
    subst h
    simp only [letStatement.sizeOf_spec]
    omega
  | assign pos target value =>
    simp only [children, List.mem_singleton] at h
    subst h
    simp only [assign.sizeOf_spec]
    omega
  | returnStatement pos value =>
    cases value with
    | none => simp [children] at h
    | some value =>
      simp only [children, Option.toList_some, List.mem_singleton] at h
      subst h
      simp only [returnStatement.sizeOf_spec, Option.some.sizeOf_spec]
      omega
  | ifStatement pos condition body =>
    simp only [children, List.mem_cons] at h
    simp only [ifStatement.sizeOf_spec]
    rcases h with rfl | h
    · omega
    · have := List.sizeOf_lt_of_mem h
      omega
  | whileStatement pos condition body =>
    simp only [children, List.mem_cons] at h
    simp only [whileStatement.sizeOf_spec]
    rcases h with rfl | h
    · omega
    · have := List.sizeOf_lt_of_mem h
      omega
  | range pos start stop =>
    simp only [children, List.mem_cons, List.not_mem_nil, or_false] at h
    simp only [range.sizeOf_spec]
    rcases h with rfl | rfl <;> omega
  | forLoop pos counter bounds body =>
    simp only [children, List.mem_cons] at h
    simp only [forLoop.sizeOf_spec]
    rcases h with rfl | h
    · omega
    · have := List.sizeOf_lt_of_mem h
      omega
  | procDef proc =>
    obtain ⟨number, pos, name, returnType, params, body⟩ := proc
    have := List.sizeOf_lt_of_mem (show c ∈ body from h)
    simp only [procDef.sizeOf_spec, Proc.mk.sizeOf_spec]
    omega
  | call pos callee args =>
    obtain ⟨b, hb, rfl⟩ := List.mem_map.mp h
    have := sizeOf_value_lt_of_mem hb
    simp only [call.sizeOf_spec]
    omega
  | structInstance pos value =>
    obtain ⟨struct, fields⟩ := value
    obtain ⟨b, hb, rfl⟩ := List.mem_map.mp h
    have := sizeOf_value_lt_of_mem (show b ∈ fields from hb)
    simp only [structInstance.sizeOf_spec, Instance.mk.sizeOf_spec]
    omega
  | implBlock pos impl block =>
    obtain ⟨struct, procs⟩ := block
    obtain ⟨p, hp, rfl⟩ := List.mem_map.mp h
    have := sizeOf_proc_lt_of_mem (show p ∈ procs from hp)
    simp only [implBlock.sizeOf_spec, Impl.mk.sizeOf_spec]
    omega
  | implCall pos impl struct callee args =>
    obtain ⟨b, hb, rfl⟩ := List.mem_map.mp h
    have := sizeOf_value_lt_of_mem hb
    simp only [implCall.sizeOf_spec]
    omega
  | fieldAssign pos owner field value =>
    simp only [children, List.mem_singleton] at h
    subst h
    simp only [fieldAssign.sizeOf_spec]
    omega
  | binary pos lhs op rhs =>
    simp only [children, List.mem_cons, List.not_mem_nil, or_false] at h
    simp only [binary.sizeOf_spec]
    rcases h with rfl | rfl <;> omega

/-- The forms met on a walk that goes no deeper at the forms in `stops`. -/
def visited (stops : List ExprKind) (e : Expr) : List ExprKind :=
  if e.kind ∈ stops then [e.kind]
  else e.kind :: e.children.attach.flatMap fun ⟨c, _⟩ => c.visited stops
termination_by sizeOf e
decreasing_by exact sizeOf_lt_of_mem_children (by assumption)

/-- The form at which a walk stops at once, if it does. -/
def stoppedAt (stops : List ExprKind) (e : Expr) : Option ExprKind :=
  if e.kind ∈ stops then some e.kind else none

end Expr
end ScriptFront
