import QvPlugin.Utils.PropertyBind

/-!
One Bindable and one property that are bound to each other and to nothing else: when the Bindable
holds what the property shows.
-/

set_option autoImplicit false
set_option relaxedAutoImplicit false

namespace QvPlugin.Utils

open Lib

universe u v w x

namespace Bindings

variable {ι : Type u} {π : Type v} {T : Type w} {P : π → Type x}

/-- The two are bound to each other and to nothing else. -/
def Alone (n : Bindings ι π T P) (b : ι) (p : π) : Prop :=
  n.notify b = [.inr p] ∧ n.trigger p = [b]

inductive PairOp (T : Type u) (P : Type v) where
  | assign (f : T)
  | load (decode : T → T)
  | edit (held : P)

def PairOp.op (b : ι) (p : π) : PairOp T (P p) → Op ι π T P
  | .assign f => .assign b f
  | .load decode => .load b decode
  | .edit held => .edit p held

variable (props : (p : π) → QProperty T (P p)) (b : ι) (p : π)

def Agrees (n : Bindings ι π T P) : Prop := n.value b = (props p).value (n.held p)

/-- The value that is assigned or loaded is one that the property reads back as it is, or else one
that changes the property, which then sets the Bindable. -/
def Taken (n : Bindings ι π T P) : PairOp T (P p) → Prop
  | .assign f => Keeps props p f ∨ n.held p ≠ (props p).setProperty f
  | .load decode => Keeps props p (decode (n.value b)) ∨
      n.held p ≠ (props p).setProperty (decode (n.value b))
  | .edit _ => True

variable {props b p}

theorem keeps_of_agrees {n : Bindings ι π T P} (agrees : Agrees props b p n) :
    Keeps props p (n.value b) := by
  have shown : n.value b = (props p).value (n.held p) := agrees
  rw [Keeps, shown, (props p).setProperty_value]

variable [DecidableEq ι]

theorem store_value_self (n : Bindings ι π T P) : n.store b (n.value b) = n := by
  simp [store]

theorem Alone.store {n : Bindings ι π T P} (alone : n.Alone b p) (v : T) :
    (n.store b v).Alone b p := alone

variable [DecidableEq π] [∀ p, DecidableEq (P p)]

variable (props b p) in
/-- Where the two end when the Bindable emits: a property that changes has the last word. -/
def emitted (n : Bindings ι π T P) : Bindings ι π T P :=
  let held := (props p).setProperty (n.value b)
  if n.held p = held then n else (n.hold p held).store b ((props p).value held)

theorem Alone.emitted {n : Bindings ι π T P} (alone : n.Alone b p) :
    (emitted props b p n).Alone b p := by
  rw [Bindings.emitted]
  split
  · exact alone
  · exact alone

/-- After an emission the two agree exactly when the value is kept or has changed the property. -/
theorem agrees_emitted (n : Bindings ι π T P) : Agrees props b p (emitted props b p n) ↔
    Keeps props p (n.value b) ∨ n.held p ≠ (props p).setProperty (n.value b) := by
  rw [emitted]
  by_cases same : n.held p = (props p).setProperty (n.value b)
  · rw [if_pos same, Agrees, same, Keeps]
    constructor
    · exact fun agrees => Or.inl agrees.symm
    · rintro (keeps | differ)
      · exact keeps.symm
      · exact absurd rfl differ
  · rw [if_neg same, Agrees]
    refine iff_of_true ?_ (Or.inr same)
    simp [store, hold]

variable [DecidableEq T]

theorem set_back {n : Bindings ι π T P} (alone : n.Alone b p) (k : ℕ) :
    set (write props (k + 1)) n b ((props p).value (n.held p)) =
      some (n.store b ((props p).value (n.held p))) := by
  rw [set]
  by_cases there : n.value b = (props p).value (n.held p)
  · rw [if_pos there, ← there, store_value_self]
  · rw [if_neg there]
    generalize final : n.store b ((props p).value (n.held p)) = m
    have holds : m.held p = (props p).setProperty (m.value b) := by
      rw [← final]
      simp [store, (props p).setProperty_value]
    have slots : m.notify b = [.inr p] := by
      rw [← final]
      exact alone.1
    rw [emitNotify, slots]
    simp only [List.foldlM_cons, List.foldlM_nil, write, change, if_pos holds]
    rfl

theorem emitTrigger_alone {n : Bindings ι π T P} (alone : n.Alone b p) (k : ℕ) :
    emitTrigger props (write props (k + 2)) n p =
      some (n.store b ((props p).value (n.held p))) := by
  rw [emitTrigger, alone.2, ← set_back alone k]
  simp only [List.foldlM_cons, List.foldlM_nil]
  exact bind_pure _

theorem emitNotify_alone {n : Bindings ι π T P} (alone : n.Alone b p) (k : ℕ) :
    emitNotify (write props (k + 3)) n b = some (emitted props b p n) := by
  have toProperty : emitNotify (write props (k + 3)) n b =
      change props (write props (k + 2)) n p ((props p).setProperty (n.value b)) := by
    rw [emitNotify, alone.1]
    simp only [List.foldlM_cons, List.foldlM_nil]
    exact bind_pure _
  rw [toProperty, change, emitted]
  generalize (props p).setProperty (n.value b) = held
  by_cases same : n.held p = held
  · rw [if_pos same, if_pos same]
  · simp only [if_neg same]
    have holds : (n.hold p held).held p = held := by simp [hold]
    have aloneHeld : (n.hold p held).Alone b p := alone
    have triggered : emitTrigger props (write props (k + 2)) (n.hold p held) p = _ :=
      emitTrigger_alone aloneHeld k
    rw [triggered, holds]

section Step

variable (props) {fuel : ℕ} {n : Bindings ι π T P}

theorem assign_alone (enough : 4 ≤ fuel) (alone : n.Alone b p) (f : T) :
    ∃ n', assign props fuel n b f = some n' ∧ n'.Alone b p ∧
      (Agrees props b p n → (Agrees props b p n' ↔ Taken props b p n (.assign f))) := by
  obtain ⟨k, rfl⟩ : ∃ k, fuel = k + 4 := ⟨fuel - 4, by omega⟩
  by_cases held : n.value b = f
  · refine ⟨n, if_pos held, alone, fun agrees => iff_of_true agrees (Or.inl ?_)⟩
    rw [← held]
    exact keeps_of_agrees agrees
  · have emits : emitNotify (write props (k + 3)) (n.store b f) b = _ :=
      emitNotify_alone (alone.store f) k
    refine ⟨_, (if_neg held).trans emits, (alone.store f).emitted, fun _ => ?_⟩
    rw [agrees_emitted]
    simp [store, Taken]

theorem load_alone (enough : 4 ≤ fuel) (alone : n.Alone b p) (decode : T → T) :
    ∃ n', Deserialize props fuel n b decode = some n' ∧ n'.Alone b p ∧
      (Agrees props b p n' ↔ Taken props b p n (.load decode)) := by
  obtain ⟨k, rfl⟩ : ∃ k, fuel = k + 3 := ⟨fuel - 3, by omega⟩
  refine ⟨_, emitNotify_alone (alone.store _) k, (alone.store _).emitted, ?_⟩
  rw [agrees_emitted]
  simp [store, Taken]

theorem edit_alone (enough : 4 ≤ fuel) (alone : n.Alone b p) (held : P p) :
    ∃ n', edit props fuel n p held = some n' ∧ n'.Alone b p ∧
      (Agrees props b p n → Agrees props b p n') := by
  obtain ⟨k, rfl⟩ : ∃ k, fuel = k + 2 := ⟨fuel - 2, by omega⟩
  by_cases same : n.held p = held
  · exact ⟨n, if_pos same, alone, id⟩
  · have aloneHeld : (n.hold p held).Alone b p := alone
    refine ⟨_, (if_neg same).trans (emitTrigger_alone aloneHeld k), aloneHeld.store _, fun _ => ?_⟩
    simp [Agrees, store]

end Step

/-- A Bindable and a property that are bound to each other alone, and agree, do so throughout a run
of assignments, loads and edits exactly when each value that is assigned or loaded is one that the
property reads back as it is, or one that changes what the property holds. -/
theorem pair_agrees_iff (fuel : ℕ) (enough : 4 ≤ fuel) (n : Bindings ι π T P)
    (alone : n.Alone b p) (agrees : Agrees props b p n) (ops : List (PairOp T (P p))) :
    Throughout (fun n op => Op.step props fuel n (op.op b p)) (Agrees props b p) n ops ↔
      EachAction (fun n op => Op.step props fuel n (op.op b p)) (Taken props b p) n ops := by
  have succeeds : ∀ (n : Bindings ι π T P) (op : PairOp T (P p)), n.Alone b p →
      ∃ n', Op.step props fuel n (op.op b p) = some n' ∧ n'.Alone b p := by
    rintro n (f | decode | held) alone
    · obtain ⟨n', returned, alone', -⟩ := assign_alone props enough alone f
      exact ⟨n', returned, alone'⟩
    · obtain ⟨n', returned, alone', -⟩ := load_alone props enough alone decode
      exact ⟨n', returned, alone'⟩
    · obtain ⟨n', returned, alone', -⟩ := edit_alone props enough alone held
      exact ⟨n', returned, alone'⟩
  have exact_step : ∀ (n : Bindings ι π T P) (op : PairOp T (P p)) n', n.Alone b p →
      Agrees props b p n → Op.step props fuel n (op.op b p) = some n' →
      (Agrees props b p n' ↔ Taken props b p n op) := by
    rintro n (f | decode | held) n' alone agrees stepped
    · obtain ⟨m, returned, -, exactly⟩ := assign_alone props enough alone f
      cases stepped.symm.trans returned
      exact exactly agrees
    · obtain ⟨m, returned, -, exactly⟩ := load_alone props enough alone decode
      cases stepped.symm.trans returned
      exact exactly
    · obtain ⟨m, returned, -, still⟩ := edit_alone props enough alone held
      cases stepped.symm.trans returned
      exact iff_of_true (still agrees) trivial
  exact throughout_iff_eachAction succeeds exact_step alone agrees ops

def atMaximum : Bindings Unit Unit ℕ fun _ => Fin 11 where
  value _ := 10
  held _ := 10
  notify _ := [.inr ()]
  trigger _ := [()]

/-- A value above the maximum does not change the spin box, and stays in the Bindable. -/
theorem pair_agrees_iff_atMaximum :
    ¬ Throughout (fun n (op : PairOp ℕ (Fin 11)) => Op.step (fun _ => spinBox 10) 4 n (op.op () ()))
      (Agrees (fun _ => spinBox 10) () ()) atMaximum [.assign 100] := by
  intro always
  have agrees : Agrees (fun _ => spinBox 10) () () atMaximum := rfl
  have taken := (pair_agrees_iff 4 (by decide) atMaximum ⟨rfl, rfl⟩ agrees _).mp always
  rcases taken.1 with keeps | changed
  · have same : (10 : ℕ) = 100 := keeps
    exact absurd same (by decide)
  · exact changed rfl

end Bindings

end QvPlugin.Utils
