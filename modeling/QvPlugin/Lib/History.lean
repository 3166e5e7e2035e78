import QvPlugin.Lib.Run

/-!
The history of a run: each action with the state that it found. What a run has sent, read or lost
so far is a function of its history, and needs no field of the state.
-/

set_option autoImplicit false
set_option relaxedAutoImplicit false

namespace QvPlugin.Lib

universe u v w

variable {S : Type u} {A : Type v} {step : S → A → Option S}

/-- The actions of a run, each with the state that it found, as far as they succeed. -/
def history (step : S → A → Option S) : S → List A → List (S × A)
  | _, [] => []
  | s, a :: as =>
      match step s a with
      | some s' => (s, a) :: history step s' as
      | none => []

theorem history_cons {s s' : S} {a : A} (stepped : step s a = some s') (as : List A) :
    history step s (a :: as) = (s, a) :: history step s' as := by
  rw [history, stepped]

theorem run_cons {s s' : S} {a : A} (stepped : step s a = some s') (as : List A) :
    run step s (a :: as) = run step s' as := by
  rw [run, stepped, Option.bind_some]

theorem exists_step_of_run_cons {s t : S} {a : A} {as : List A}
    (ran : run step s (a :: as) = some t) : ∃ s', step s a = some s' ∧ run step s' as = some t := by
  rw [run] at ran
  exact Option.bind_eq_some_iff.mp ran

theorem run_append (s : S) (as bs : List A) :
    run step s (as ++ bs) = (run step s as).bind fun s' => run step s' bs := by
  induction as generalizing s with
  | nil => rfl
  | cons a as ih =>
      rw [List.cons_append, run, run]
      cases stepped : step s a with
      | none => rfl
      | some s' =>
          rw [Option.bind_some, Option.bind_some]
          exact ih s'

theorem exists_run (succeeds : ∀ s a, ∃ s', step s a = some s') (s : S) (as : List A) :
    ∃ t, run step s as = some t := by
  induction as generalizing s with
  | nil => exact ⟨s, rfl⟩
  | cons a as ih =>
      obtain ⟨s', stepped⟩ := succeeds s a
      rw [run_cons stepped]
      exact ih s'

/-- What every step keeps, a run keeps. -/
theorem run_keeps {P : S → Prop} (keeps : ∀ s a s', P s → step s a = some s' → P s') {s t : S}
    {as : List A} (start : P s) (ran : run step s as = some t) : P t := by
  induction as generalizing s with
  | nil =>
      have same : s = t := Option.some.inj ran
      exact same ▸ start
  | cons a as ih =>
      obtain ⟨s', stepped, rest⟩ := exists_step_of_run_cons ran
      exact ih (keeps s a s' start stepped) rest

theorem run_keeps_history_from {R : S → List (S × A) → Prop}
    (keeps : ∀ s past a s', R s past → step s a = some s' → R s' (past ++ [(s, a)])) {s t : S}
    {past : List (S × A)} {as : List A} (start : R s past) (ran : run step s as = some t) :
    R t (past ++ history step s as) := by
  induction as generalizing s past with
  | nil =>
      have same : s = t := Option.some.inj ran
      rw [history, List.append_nil]
      exact same ▸ start
  | cons a as ih =>
      obtain ⟨s', stepped, rest⟩ := exists_step_of_run_cons ran
      have after := ih (keeps s past a s' start stepped) rest
      rw [history_cons stepped]
      rwa [List.append_assoc] at after

/-- What every step keeps between the state and the history so far, a run keeps. -/
theorem run_keeps_history (R : S → List (S × A) → Prop)
    (keeps : ∀ s past a s', R s past → step s a = some s' → R s' (past ++ [(s, a)])) {s t : S}
    {as : List A} (start : R s []) (ran : run step s as = some t) : R t (history step s as) :=
  run_keeps_history_from keeps start ran

/-- What one function does to the states, seen through `abs`, another does to what is seen. -/
theorem map_foldlM {M : Type w} {f : S → A → Option S} {g : M → A → Option M} {abs : S → M}
    (simulates : ∀ s a, (f s a).map abs = g (abs s) a) (as : List A) (s : S) :
    (as.foldlM f s).map abs = as.foldlM g (abs s) := by
  induction as generalizing s with
  | nil => rfl
  | cons a as ih =>
      rw [List.foldlM_cons, List.foldlM_cons, ← simulates s a]
      cases f s a with
      | none => rfl
      | some s' => exact ih s'

end QvPlugin.Lib
