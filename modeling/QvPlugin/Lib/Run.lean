import Mathlib.Data.List.Basic
import Mathlib.Logic.Basic

/-! Runs of a step function that can fail, and the rules for what holds along them. -/

set_option autoImplicit false
set_option relaxedAutoImplicit false

namespace QvPlugin.Lib

universe u v w

variable {S : Type u} {A : Type v} {M : Type w}

/-- The actions taken one after another, as far as they succeed. -/
def run (step : S → A → Option S) : S → List A → Option S
  | s, [] => some s
  | s, a :: as => (step s a).bind fun s' => run step s' as

/-- Every action succeeds and the property holds before, between and after them. -/
def Throughout (step : S → A → Option S) (P : S → Prop) : S → List A → Prop
  | s, [] => P s
  | s, a :: as => P s ∧ ∃ s', step s a = some s' ∧ Throughout step P s' as

/-- Every action meets the condition in the state that it finds. -/
def EachAction (step : S → A → Option S) (Q : S → A → Prop) : S → List A → Prop
  | _, [] => True
  | s, a :: as => Q s a ∧ ∀ s', step s a = some s' → EachAction step Q s' as

variable {step : S → A → Option S}

theorem Throughout.start {P : S → Prop} {s : S} {as : List A} (always : Throughout step P s as) :
    P s := by
  cases as with
  | nil => exact always
  | cons a as => exact always.1

/-- Simulation, from one step to a whole run. -/
theorem run_simulates {stepM : M → A → M} {R : S → M → Prop}
    (simulates : ∀ s m a, R s m → ∃ s', step s a = some s' ∧ R s' (stepM m a)) {s : S} {m : M}
    (start : R s m) (as : List A) :
    ∃ s', run step s as = some s' ∧ R s' (as.foldl stepM m) := by
  induction as generalizing s m with
  | nil => exact ⟨s, rfl, start⟩
  | cons a as ih =>
      obtain ⟨s', stepped, related⟩ := simulates s m a start
      obtain ⟨last, ran, relatedLast⟩ := ih related
      refine ⟨last, ?_, relatedLast⟩
      rw [run, stepped, Option.bind_some, ran]

/-- Two runs with the same actions, from one step to the whole. -/
theorem run_related {R : S → S → Prop}
    (related : ∀ s t a, R s t → ∃ s' t', step s a = some s' ∧ step t a = some t' ∧ R s' t') {s t : S}
    (start : R s t) (as : List A) :
    ∃ s' t', run step s as = some s' ∧ run step t as = some t' ∧ R s' t' := by
  induction as generalizing s t with
  | nil => exact ⟨s, t, rfl, rfl, start⟩
  | cons a as ih =>
      obtain ⟨s', t', stepped, stepped', next⟩ := related s t a start
      obtain ⟨last, last', ran, ran', relatedLast⟩ := ih next
      refine ⟨last, last', ?_, ?_, relatedLast⟩
      · rw [run, stepped, Option.bind_some, ran]
      · rw [run, stepped', Option.bind_some, ran']

/-- When one step keeps the property exactly under a condition, a run keeps it throughout exactly
when each of its actions meets the condition. -/
theorem throughout_iff_eachAction {Inv P : S → Prop} {Q : S → A → Prop}
    (succeeds : ∀ s a, Inv s → ∃ s', step s a = some s' ∧ Inv s')
    (exact_step : ∀ s a s', Inv s → P s → step s a = some s' → (P s' ↔ Q s a)) {s : S}
    (inv : Inv s) (start : P s) (as : List A) :
    Throughout step P s as ↔ EachAction step Q s as := by
  induction as generalizing s with
  | nil => exact ⟨fun _ => trivial, fun _ => start⟩
  | cons a as ih =>
      obtain ⟨s', stepped, inv'⟩ := succeeds s a inv
      have keeps := exact_step s a s' inv start stepped
      constructor
      · rintro ⟨-, t, stepped', always⟩
        have same : s' = t := Option.some.inj (stepped.symm.trans stepped')
        rw [← same] at always
        have after := always.start
        refine ⟨keeps.mp after, fun u steppedU => ?_⟩
        have sameU : s' = u := Option.some.inj (stepped.symm.trans steppedU)
        rw [← sameU]
        exact (ih inv' after).mp always
      · rintro ⟨condition, rest⟩
        have after := keeps.mpr condition
        exact ⟨start, s', stepped, (ih inv' after).mpr (rest s' stepped)⟩

end QvPlugin.Lib
