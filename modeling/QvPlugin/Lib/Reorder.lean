import Mathlib.Data.List.Pairwise
import Mathlib.Data.List.Perm.Basic

/-! Steps that are taken one after another, and their order. -/

set_option autoImplicit false
set_option relaxedAutoImplicit false

namespace QvPlugin.Lib

universe u v

variable {σ : Type u} {α : Type v} {R : α → α → Prop}

/-- When which two steps commute does not depend on the state, their order never counts exactly
when every two of them commute. -/
theorem foldl_order_iff (step : σ → α → σ)
    (commute : ∀ s a b, step (step s a) b = step (step s b) a ↔ R a b) (s : σ) (l : List α) :
    (∀ l', l.Perm l' → l'.foldl step s = l.foldl step s) ↔ l.Pairwise R := by
  have symm : ∀ a b, R a b → R b a := fun a b related =>
    (commute s b a).mp ((commute s a b).mpr related).symm
  constructor
  · intro free
    apply List.pairwise_iff_forall_sublist.mpr
    intro a b sub
    -- the two steps are taken last, in either order
    obtain ⟨rest, perm⟩ := sub.exists_perm_append
    have last : l.Perm (rest ++ [a, b]) := perm.trans List.perm_append_comm
    have swapped : l.Perm (rest ++ [b, a]) :=
      last.trans ((List.Perm.swap b a []).append_left rest)
    have same := (free _ last).trans (free _ swapped).symm
    rw [List.foldl_append, List.foldl_append] at same
    exact (commute _ a b).mp same
  · intro pairwise l' perm
    have symmetric : Std.Symm R := ⟨symm⟩
    have itself : ∀ a ∈ l, R a a := fun a _ => (commute s a a).mp rfl
    have related : ∀ a ∈ l, ∀ b ∈ l, R a b := fun a inA b inB =>
      List.Pairwise.forall_of_forall itself pairwise inA inB
    have comm : ∀ a ∈ l, ∀ b ∈ l, ∀ s, step (step s a) b = step (step s b) a :=
      fun a inA b inB s => (commute s a b).mpr (related a inA b inB)
    exact (perm.foldl_eq' comm s).symm

end QvPlugin.Lib
