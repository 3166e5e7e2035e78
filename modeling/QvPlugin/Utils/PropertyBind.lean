import QvPlugin.Lib.Cells
import QvPlugin.Lib.History

/-!
`Bindable<T>` objects that are bound to one another and to properties of QObjects. The trigger
signal of a binding is the one that its property emits when what it holds changes. `fuel` bounds the
depth of nested calls; `none` is a run out of fuel.
-/

set_option autoImplicit false
set_option relaxedAutoImplicit false

namespace QvPlugin.Utils

open Lib

universe u v w x

/-- A property that can hold the values of `P`. -/
structure QProperty (T : Type u) (P : Type v) where
  /-- What it holds after `setProperty`. -/
  setProperty : T → P
  /-- `property(..).value<T>()`. -/
  value : P → T
  /-- What it holds it keeps when it is given it back. -/
  setProperty_value : ∀ held, setProperty (value held) = held

def spinBox (maximum : ℕ) : QProperty ℕ (Fin (maximum + 1)) where
  setProperty v := ⟨min v maximum, Nat.lt_succ_of_le (Nat.min_le_right v maximum)⟩
  value held := held.val
  setProperty_value held := Fin.ext (Nat.min_eq_left (Nat.le_of_lt_succ held.isLt))

/-- The live Bindables and properties, with the slots that `notify` of a Bindable calls and those
that the trigger signal of a property calls, which set Bindables. -/
structure Bindings (ι : Type u) (π : Type v) (T : Type w) (P : π → Type x) where
  value : ι → T
  held : (p : π) → P p
  notify : ι → List (ι ⊕ π)
  trigger : π → List ι

namespace Bindings

variable {ι : Type u} {π : Type v} {T : Type w} {P : π → Type x}

section State

variable [DecidableEq ι] [DecidableEq π]

def store (n : Bindings ι π T P) (b : ι) (v : T) : Bindings ι π T P :=
  { n with value := Function.update n.value b v }

def hold (n : Bindings ι π T P) (p : π) (held : P p) : Bindings ι π T P :=
  { n with held := Function.update n.held p held }

def connectNotify (n : Bindings ι π T P) (b : ι) (target : ι ⊕ π) : Bindings ι π T P :=
  { n with notify := Function.update n.notify b (n.notify b ++ [target]) }

def connectTrigger (n : Bindings ι π T P) (p : π) (b : ι) : Bindings ι π T P :=
  { n with trigger := Function.update n.trigger p (n.trigger p ++ [b]) }

end State

section Calls

variable [DecidableEq ι] [DecidableEq π] [DecidableEq T] [∀ p, DecidableEq (P p)]

/-- `emit notify()`: each slot reads the `value` of `b` and gives it to its target. -/
def emitNotify (write : Bindings ι π T P → ι ⊕ π → T → Option (Bindings ι π T P))
    (n : Bindings ι π T P) (b : ι) : Option (Bindings ι π T P) :=
  (n.notify b).foldlM (fun n target => write n target (n.value b)) n

def set (write : Bindings ι π T P → ι ⊕ π → T → Option (Bindings ι π T P))
    (n : Bindings ι π T P) (b : ι) (v : T) : Option (Bindings ι π T P) :=
  if n.value b = v then some n else emitNotify write (n.store b v) b

variable (props : (p : π) → QProperty T (P p))

/-- The trigger signal of `p`: each slot reads the property and calls `set`. -/
def emitTrigger (write : Bindings ι π T P → ι ⊕ π → T → Option (Bindings ι π T P))
    (n : Bindings ι π T P) (p : π) : Option (Bindings ι π T P) :=
  (n.trigger p).foldlM (fun n b => write n (.inl b) ((props p).value (n.held p))) n

def change (write : Bindings ι π T P → ι ⊕ π → T → Option (Bindings ι π T P))
    (n : Bindings ι π T P) (p : π) (held : P p) : Option (Bindings ι π T P) :=
  if n.held p = held then some n else emitTrigger props write (n.hold p held) p

/-- `set` of a Bindable, `setProperty` of a property. -/
def write : ℕ → Bindings ι π T P → ι ⊕ π → T → Option (Bindings ι π T P)
  | 0, _, _, _ => none
  | fuel + 1, n, .inl b, v => set (write fuel) n b v
  | fuel + 1, n, .inr p, v => change props (write fuel) n p ((props p).setProperty v)

/-- `WriteBind`, with another Bindable or with a property. -/
def WriteBind (fuel : ℕ) (n : Bindings ι π T P) (b : ι) (target : ι ⊕ π) :
    Option (Bindings ι π T P) :=
  (write props fuel n target (n.value b)).map fun n => n.connectNotify b target

def ReadBind (n : Bindings ι π T P) (b : ι) : ι ⊕ π → Bindings ι π T P
  | .inl target => n.connectNotify target (.inl b)
  | .inr target => n.connectTrigger target b

def ReadWriteBind (fuel : ℕ) (n : Bindings ι π T P) (b : ι) (target : ι ⊕ π) :
    Option (Bindings ι π T P) :=
  (WriteBind props fuel n b target).map fun n => ReadBind n b target

def assign (fuel : ℕ) (n : Bindings ι π T P) (b : ι) (f : T) : Option (Bindings ι π T P) :=
  write props fuel n (.inl b) f

def Deserialize (fuel : ℕ) (n : Bindings ι π T P) (b : ι) (decode : T → T) :
    Option (Bindings ι π T P) :=
  emitNotify (write props fuel) (n.store b (decode (n.value b))) b

/-- The property is changed from outside, by the user. -/
def edit (fuel : ℕ) (n : Bindings ι π T P) (p : π) (held : P p) : Option (Bindings ι π T P) :=
  change props (write props fuel) n p held

inductive Op (ι : Type u) (π : Type v) (T : Type w) (P : π → Type x) where
  | bind (b : ι) (target : ι ⊕ π)
  | assign (b : ι) (f : T)
  | load (b : ι) (decode : T → T)
  | edit (p : π) (held : P p)

def Op.step (fuel : ℕ) (n : Bindings ι π T P) : Op ι π T P → Option (Bindings ι π T P)
  | .bind b target => ReadWriteBind props fuel n b target
  | .assign b f => Bindings.assign props fuel n b f
  | .load b decode => Deserialize props fuel n b decode
  | .edit p held => Bindings.edit props fuel n p held

end Calls

section Cells

variable (props : (p : π) → QProperty T (P p))

/-- What a Bindable or a property makes of a value that it is given. -/
def accept : ι ⊕ π → T → T
  | .inl _ => id
  | .inr p => fun v => (props p).value ((props p).setProperty v)

/-- The Bindables and the properties as cells; a property shows the value that it would be read
as. -/
def cells (n : Bindings ι π T P) : Cells (ι ⊕ π) T where
  value
    | .inl b => n.value b
    | .inr p => (props p).value (n.held p)
  links
    | .inl b => n.notify b
    | .inr p => (n.trigger p).map .inl

def Keeps (p : π) (v : T) : Prop := (props p).value ((props p).setProperty v) = v

theorem accept_idempotent (c : ι ⊕ π) (v : T) :
    accept props c (accept props c v) = accept props c v := by
  cases c with
  | inl b => rfl
  | inr p => simp only [accept, (props p).setProperty_value]

theorem value_injective (p : π) {held held' : P p}
    (same : (props p).value held = (props p).value held') : held = held' := by
  rw [← (props p).setProperty_value held, same, (props p).setProperty_value]

variable [DecidableEq ι] [DecidableEq π]

theorem cells_store (n : Bindings ι π T P) (b : ι) (v : T) :
    (n.store b v).cells props = (n.cells props).store (.inl b) v := by
  have values : ((n.store b v).cells props).value = ((n.cells props).store (.inl b) v).value := by
    funext c
    rcases c with a | p
    · by_cases here : a = b
      · subst here
        simp [cells, store]
      · have other : (Sum.inl a : ι ⊕ π) ≠ .inl b := fun same => here (Sum.inl.inj same)
        rw [Cells.value_store_of_ne _ other]
        simp [cells, store, here]
    · rw [Cells.value_store_of_ne _ (by simp)]
      rfl
  exact congrArg (Cells.mk · _) values

theorem cells_hold (n : Bindings ι π T P) (p : π) (held : P p) :
    (n.hold p held).cells props = (n.cells props).store (.inr p) ((props p).value held) := by
  have values : ((n.hold p held).cells props).value =
      ((n.cells props).store (.inr p) ((props p).value held)).value := by
    funext c
    rcases c with a | q
    · rw [Cells.value_store_of_ne _ (by simp)]
      rfl
    · by_cases here : q = p
      · subst here
        simp [cells, hold]
      · have other : (Sum.inr q : ι ⊕ π) ≠ .inr p := fun same => here (Sum.inr.inj same)
        rw [Cells.value_store_of_ne _ other]
        simp [cells, hold, here]
  exact congrArg (Cells.mk · _) values

variable [DecidableEq T] [∀ p, DecidableEq (P p)]

variable (ι) in
/-- With that much fuel, `set` and `setProperty` give the cells their values. -/
def Refines (fuel : ℕ) : Prop := ∀ (n : Bindings ι π T P) (c : ι ⊕ π) (v : T),
  (write props fuel n c v).map (cells props) =
    Cells.give (accept props) fuel (n.cells props) c v

section Calls

variable {fuel : ℕ}

theorem map_emitNotify (below : Refines ι props fuel) (n : Bindings ι π T P) (b : ι) :
    (emitNotify (write props fuel) n b).map (cells props) =
      Cells.passOn (Cells.give (accept props) fuel) (.inl b) (n.cells props) (n.notify b) := by
  have step : ∀ (n : Bindings ι π T P) target,
      (write props fuel n target (n.value b)).map (cells props) =
        Cells.give (accept props) fuel (n.cells props) target ((n.cells props).value (.inl b)) :=
    fun n target => below n target (n.value b)
  exact map_foldlM step (n.notify b) n

theorem map_emitTrigger (below : Refines ι props fuel) (n : Bindings ι π T P) (p : π) :
    (emitTrigger props (write props fuel) n p).map (cells props) =
      Cells.passOn (Cells.give (accept props) fuel) (.inr p) (n.cells props)
        ((n.trigger p).map .inl) := by
  have step : ∀ (n : Bindings ι π T P) b,
      (write props fuel n (.inl b) ((props p).value (n.held p))).map (cells props) =
        Cells.give (accept props) fuel (n.cells props) (.inl b)
          ((n.cells props).value (.inr p)) :=
    fun n b => below n (.inl b) ((props p).value (n.held p))
  rw [Cells.passOn, List.foldlM_map]
  exact map_foldlM step (n.trigger p) n

theorem map_set (below : Refines ι props fuel) (n : Bindings ι π T P) (b : ι) (v : T) :
    (set (write props fuel) n b v).map (cells props) =
      Cells.give (accept props) (fuel + 1) (n.cells props) (.inl b) v := by
  rw [set]
  by_cases held : n.value b = v
  · have given : Cells.give (accept props) (fuel + 1) (n.cells props) (.inl b) v =
        some (n.cells props) := Cells.give_of_eq held
    rw [given, if_pos held, Option.map_some]
  · have given : Cells.give (accept props) (fuel + 1) (n.cells props) (.inl b) v =
        Cells.passOn _ _ _ _ := Cells.give_of_ne held
    rw [given, if_neg held, map_emitNotify props below, cells_store]
    rfl

/-- A property that is to hold `held` is given the value that this is read as. -/
theorem map_change (below : Refines ι props fuel) (n : Bindings ι π T P) (p : π) (held : P p) :
    (change props (write props fuel) n p held).map (cells props) =
      Cells.give (accept props) (fuel + 1) (n.cells props) (.inr p) ((props p).value held) := by
  have accepted : accept props (.inr p : ι ⊕ π) ((props p).value held) =
      (props p).value held := by
    simp only [accept, (props p).setProperty_value]
  rw [change]
  by_cases same : n.held p = held
  · have shown : (n.cells props).value (.inr p) =
        accept props (.inr p : ι ⊕ π) ((props p).value held) := by
      rw [accepted, ← same]
      rfl
    rw [Cells.give_of_eq shown, if_pos same, Option.map_some]
  · have differ : (n.cells props).value (.inr p) ≠
        accept props (.inr p : ι ⊕ π) ((props p).value held) := by
      rw [accepted]
      exact fun shown => same (value_injective props p shown)
    rw [Cells.give_of_ne differ, if_neg same, map_emitTrigger props below, cells_hold, accepted]
    rfl

end Calls

/-- The Bindables and the properties refine the cells, at every depth. -/
theorem refines (fuel : ℕ) : Refines ι props fuel := by
  induction fuel with
  | zero => exact fun n c v => rfl
  | succ fuel ih =>
      intro n c v
      cases c with
      | inl b => exact map_set props ih n b v
      | inr p =>
          rw [write, map_change props ih]
          exact Cells.give_accept (accept_idempotent props (.inr p) v) _ _

end Cells

end Bindings

end QvPlugin.Utils
