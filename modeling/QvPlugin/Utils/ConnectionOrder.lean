import Mathlib.Data.Fintype.Basic
import Mathlib.Data.List.Perm.Basic
import QvPlugin.Lib.Run
import QvPlugin.Utils.Observers
import QvPlugin.Utils.Reach

/-!
The slots of a Bindable are called in the order of connection. Nothing but the order of the
emissions depends on it, however the bindings run.
-/

set_option autoImplicit false
set_option relaxedAutoImplicit false

namespace QvPlugin.Utils

open Lib

universe u v w

namespace Bindable

variable {ι : Type u} {κ : Type v} {T : Type w} {V : Type v}

/-- The same Bindables with the same connections, in any order and any number of times each, that
have emitted equally often, in some order. -/
structure Alike (n m : Network ι κ T) : Prop where
  value : m.value = n.value
  slots : ∀ b slot, slot ∈ m.slots b ↔ slot ∈ n.slots b
  emitted : m.emitted.Perm n.emitted
  delivered : m.delivered = n.delivered

section Propagation

variable {n m n' m' : Network ι κ T} {reached : ι → Prop} {v : T}

theorem Alike.reaches (alike : Alike n m) (v : T) : Reaches m v = Reaches n v := by
  have passes : Passes m v = Passes n v := by
    funext a c
    rw [Passes, Passes, alike.value, alike.slots]
  rw [Reaches, Reaches, passes]

theorem Alike.told (alike : Alike n m) (reached : ι → Prop) (x : ι) (id : κ) :
    Told m reached x id ↔ Told n reached x id := by
  rw [Told, Told, alike.slots]

/-- What is reached decides everything but the order. -/
theorem Alike.propagated (alike : Alike n m) (first : Propagated reached v n n')
    (second : Propagated reached v m m') : Alike n' m' where
  value := by
    funext x
    by_cases here : reached x
    · rw [second.taken x here, first.taken x here]
    · rw [second.untouched x here, first.untouched x here, alike.value]
  slots b slot := by
    rw [second.slots, first.slots]
    exact alike.slots b slot
  emitted := by
    obtain ⟨new, log, nodup, members⟩ := first.emitted
    obtain ⟨new', log', nodup', members'⟩ := second.emitted
    have same : new'.Perm new := by
      rw [List.perm_ext_iff_of_nodup nodup' nodup]
      intro x
      rw [members, members']
    rw [log, log']
    exact alike.emitted.append same
  delivered := by
    funext x id
    by_cases here : Told n reached x id
    · rw [second.told x id ((alike.told reached x id).mpr here), first.told x id here]
    · have elsewhere : ¬ Told m reached x id := fun told => here ((alike.told reached x id).mp told)
      rw [second.untold x id elsewhere, first.untold x id here, alike.delivered]

end Propagation

section Steps

variable [DecidableEq ι] {n m : Network ι κ T}

theorem mutate_alike (alike : Alike n m) (b : ι) (f : T → T) :
    Alike (mutate n b f) (mutate m b f) where
  value := by
    show Function.update m.value b (f (m.value b)) = Function.update n.value b (f (n.value b))
    rw [alike.value]
  slots := alike.slots
  emitted := alike.emitted
  delivered := alike.delivered

variable [DecidableEq κ] [DecidableEq T] [Fintype ι] {fuel : ℕ}

theorem set_alike (enough : Fintype.card ι < fuel) (alike : Alike n m) (b : ι) (v : T) :
    ∃ n' m', set fuel n b v = some n' ∧ set fuel m b v = some m' ∧ Alike n' m' := by
  obtain ⟨n', returned, first⟩ := set_propagates enough n b v
  obtain ⟨m', returned', second⟩ := set_propagates enough m b v
  rw [alike.value, alike.reaches] at second
  exact ⟨n', m', returned, returned', alike.propagated first second⟩

theorem Deserialize_alike (enough : Fintype.card ι < fuel) (alike : Alike n m) (b : ι)
    (decode : T → T) :
    ∃ n' m', Deserialize fuel n b decode = some n' ∧ Deserialize fuel m b decode = some m' ∧
      Alike n' m' := by
  obtain ⟨n', returned, first⟩ := Deserialize_propagates enough n b decode
  obtain ⟨m', returned', second⟩ := Deserialize_propagates enough m b decode
  rw [alike.value, alike.reaches] at second
  exact ⟨n', m', returned, returned', alike.propagated first second⟩

theorem Change.step_alike (enough : Fintype.card ι < fuel) (alike : Alike n m)
    (ops : Operators T V) (b : ι) (change : Change ι T V) :
    ∃ n' m', Change.step ops fuel b n change = some n' ∧
      Change.step ops fuel b m change = some m' ∧ Alike n' m' := by
  cases direct : change.direct ops with
  | some f =>
      exact ⟨_, _, Change.step_direct direct, Change.step_direct direct, mutate_alike alike b f⟩
  | none =>
      cases change with
      | assign f => exact set_alike enough alike b f
      | assignFrom f =>
          obtain ⟨n', m', returned, returned', alike'⟩ := set_alike enough alike b (n.value f)
          refine ⟨n', m', returned, ?_, alike'⟩
          show set fuel m b (m.value f) = some m'
          rw [alike.value, returned']
      | load decode => exact Deserialize_alike enough alike b decode
      | _ => exact nomatch direct

/-- Whatever is done to the Bindables, one after another, the order in which they were connected
shows in nothing but the order of the emissions. -/
theorem connection_order_immaterial (enough : Fintype.card ι < fuel) (ops : Operators T V)
    (alike : Alike n m) (changes : List (ι × Change ι T V)) :
    ∃ n' m', run (fun n change => Change.step ops fuel change.1 n change.2) n changes = some n' ∧
      run (fun n change => Change.step ops fuel change.1 n change.2) m changes = some m' ∧
      Alike n' m' := by
  apply run_related _ alike changes
  intro n m change alike
  exact Change.step_alike enough alike ops change.1 change.2

/-- One `int` bound to two others, in either order and twice to one of them. -/
theorem connection_order_immaterial_twoTargets :
    let n : Network (Fin 3) Unit Int32 :=
      { value := fun _ => 0
        slots := fun b => if b = 0 then [.set 1, .set 2] else []
        emitted := []
        delivered := fun _ _ => none }
    let m : Network (Fin 3) Unit Int32 :=
      { n with slots := fun b => if b = 0 then [.set 2, .set 1, .set 2] else [] }
    let step (n : Network (Fin 3) Unit Int32) (change : Fin 3 × Change (Fin 3) Int32 Int32) :=
      Change.step intOperators 4 change.1 n change.2
    ∃ n' m', run step n [(0, .assign 7), (2, .increment), (0, .load (· + 1))] = some n' ∧
      run step m [(0, .assign 7), (2, .increment), (0, .load (· + 1))] = some m' ∧
      Alike n' m' := by
  intro n m step
  have alike : Alike n m := by
    refine ⟨rfl, fun b slot => ?_, List.Perm.refl _, rfl⟩
    show slot ∈ (if b = 0 then [Slot.set 2, .set 1, .set 2] else []) ↔
      slot ∈ (if b = 0 then [Slot.set 1, .set 2] else [])
    split
    · simp only [List.mem_cons, List.not_mem_nil]
      tauto
    · exact Iff.rfl
  exact connection_order_immaterial (by decide) intOperators alike _

end Steps

end Bindable

end QvPlugin.Utils
