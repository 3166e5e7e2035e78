import Mathlib.Data.List.Basic
import Mathlib.Logic.Function.Basic

/-!
`Bindable<T>` objects and the signals between them. `emit notify()` calls the connected slots one
after another, in the order of connection, and returns when all of them have. The `==` of `T` is
equality. `fuel` bounds the depth of nested `set` calls; `none` is a run out of fuel.
-/

set_option autoImplicit false
set_option relaxedAutoImplicit false

namespace QvPlugin.Utils

universe u v w

/-- A slot connected to the `notify` of a Bindable. Both kinds read the `value` of that one. -/
inductive Slot (ι : Type u) (κ : Type v) where
  | set (target : ι)
  | callback (id : κ)
  deriving DecidableEq

/-- The live Bindables: the data member of each and the slots connected to each; with them, what
has happened so far, namely the emissions in order and the last argument of each callback. -/
structure Network (ι : Type u) (κ : Type v) (T : Type w) where
  value : ι → T
  slots : ι → List (Slot ι κ)
  emitted : List ι
  delivered : ι → κ → Option T

namespace Network

variable {ι : Type u} {κ : Type v} {T : Type w}

def log (n : Network ι κ T) (b : ι) : Network ι κ T := { n with emitted := n.emitted ++ [b] }

@[simp] theorem value_log (n : Network ι κ T) (b : ι) : (n.log b).value = n.value := rfl

@[simp] theorem slots_log (n : Network ι κ T) (b : ι) : (n.log b).slots = n.slots := rfl

variable [DecidableEq ι]

def store (n : Network ι κ T) (b : ι) (v : T) : Network ι κ T :=
  { n with value := Function.update n.value b v }

@[simp] theorem value_store_self (n : Network ι κ T) (b : ι) (v : T) :
    (n.store b v).value b = v := by
  simp [store]

theorem value_store_of_ne (n : Network ι κ T) {b x : ι} (other : x ≠ b) (v : T) :
    (n.store b v).value x = n.value x := by
  simp [store, other]

theorem store_value_self (n : Network ι κ T) (b : ι) : n.store b (n.value b) = n := by
  simp [store]

@[simp] theorem slots_store (n : Network ι κ T) (b : ι) (v : T) : (n.store b v).slots = n.slots :=
  rfl

def connect (n : Network ι κ T) (b : ι) (slot : Slot ι κ) : Network ι κ T :=
  { n with slots := Function.update n.slots b (n.slots b ++ [slot]) }

@[simp] theorem value_connect (n : Network ι κ T) (b : ι) (slot : Slot ι κ) :
    (n.connect b slot).value = n.value := rfl

@[simp] theorem delivered_connect (n : Network ι κ T) (b : ι) (slot : Slot ι κ) :
    (n.connect b slot).delivered = n.delivered := rfl

theorem mem_slots_connect (n : Network ι κ T) (b x : ι) (slot slot' : Slot ι κ) :
    slot' ∈ (n.connect b slot).slots x ↔ slot' ∈ n.slots x ∨ (x = b ∧ slot' = slot) := by
  by_cases here : x = b
  · subst here
    simp [connect]
  · simp [connect, here]

variable [DecidableEq κ]

def deliver (n : Network ι κ T) (b : ι) (id : κ) : Network ι κ T :=
  { n with
    delivered := Function.update n.delivered b
      (Function.update (n.delivered b) id (some (n.value b))) }

@[simp] theorem value_deliver (n : Network ι κ T) (b : ι) (id : κ) :
    (n.deliver b id).value = n.value := rfl

@[simp] theorem slots_deliver (n : Network ι κ T) (b : ι) (id : κ) :
    (n.deliver b id).slots = n.slots := rfl

end Network

/-- The mutating operators of `T` that `Bindable<T>` forwards to, as what they make of the value;
`V` is the type of their right operands. -/
structure Operators (T : Type w) (V : Type v) where
  increment : T → T
  decrement : T → T
  shiftLeft : T → V → T
  shiftRight : T → V → T
  addAssign : T → V → T
  subAssign : T → V → T
  mulAssign : T → V → T
  divAssign : T → V → T
  andAssign : T → V → T
  modAssign : T → V → T
  orAssign : T → V → T

namespace Bindable

variable {ι : Type u} {κ : Type v} {T : Type w} [DecidableEq ι] [DecidableEq κ] [DecidableEq T]

/-- One slot of `b` is called, with `set` as it is meant in `propTarget->set(value)`. -/
def call (set : Network ι κ T → ι → T → Option (Network ι κ T)) (b : ι) (n : Network ι κ T) :
    Slot ι κ → Option (Network ι κ T)
  | .set target => set n target (n.value b)
  | .callback id => some (n.deliver b id)

def emitNotify (set : Network ι κ T → ι → T → Option (Network ι κ T)) (n : Network ι κ T)
    (b : ι) : Option (Network ι κ T) :=
  (n.slots b).foldlM (call set b) (n.log b)

def set : ℕ → Network ι κ T → ι → T → Option (Network ι κ T)
  | 0 => fun _ _ _ => none
  | fuel + 1 => fun n b v =>
      if n.value b = v then some n else emitNotify (set fuel) (n.store b v) b

theorem set_of_eq {fuel : ℕ} {n : Network ι κ T} {b : ι} {v : T} (held : n.value b = v) :
    set (fuel + 1) n b v = some n := if_pos held

theorem set_of_ne {fuel : ℕ} {n : Network ι κ T} {b : ι} {v : T} (differ : n.value b ≠ v) :
    set (fuel + 1) n b v = emitNotify (set fuel) (n.store b v) b := if_neg differ

def EmitNotify (fuel : ℕ) (n : Network ι κ T) (b : ι) : Option (Network ι κ T) :=
  emitNotify (set fuel) n b

def Observe (n : Network ι κ T) (b : ι) (id : κ) : Network ι κ T :=
  (n.connect b (.callback id)).deliver b id

def WriteBind (fuel : ℕ) (n : Network ι κ T) (b propTarget : ι) : Option (Network ι κ T) :=
  (set fuel n propTarget (n.value b)).map fun n => n.connect b (.set propTarget)

def ReadBind (n : Network ι κ T) (b target : ι) : Network ι κ T := n.connect target (.set b)

def ReadWriteBind (fuel : ℕ) (n : Network ι κ T) (b target : ι) : Option (Network ι κ T) :=
  (WriteBind fuel n b target).map fun n => ReadBind n b target

/-- `operator=` from a `T`. -/
def assign (fuel : ℕ) (n : Network ι κ T) (b : ι) (f : T) : Option (Network ι κ T) := set fuel n b f

/-- `operator=` from another Bindable. -/
def assignFrom (fuel : ℕ) (n : Network ι κ T) (b f : ι) : Option (Network ι κ T) :=
  set fuel n b (n.value f)

/-- `JsonStructHelper::Deserialize` into a Bindable; `decode` is what it makes of the `T` inside. -/
def Deserialize (fuel : ℕ) (n : Network ι κ T) (b : ι) (decode : T → T) : Option (Network ι κ T) :=
  EmitNotify fuel (n.store b (decode (n.value b))) b

def mutate (n : Network ι κ T) (b : ι) (f : T → T) : Network ι κ T := n.store b (f (n.value b))

section Mutators

variable {V : Type v} (ops : Operators T V) (n : Network ι κ T) (b : ι)

def increment : Network ι κ T := mutate n b ops.increment

def decrement : Network ι κ T := mutate n b ops.decrement

def shiftLeft (another : V) : Network ι κ T := mutate n b fun value => ops.shiftLeft value another

def shiftRight (another : V) : Network ι κ T := mutate n b fun value => ops.shiftRight value another

def addAssign (v : V) : Network ι κ T := mutate n b fun value => ops.addAssign value v

def subAssign (v : V) : Network ι κ T := mutate n b fun value => ops.subAssign value v

def mulAssign (v : V) : Network ι κ T := mutate n b fun value => ops.mulAssign value v

def divAssign (v : V) : Network ι κ T := mutate n b fun value => ops.divAssign value v

def andAssign (v : V) : Network ι κ T := mutate n b fun value => ops.andAssign value v

def modAssign (v : V) : Network ι κ T := mutate n b fun value => ops.modAssign value v

def orAssign (v : V) : Network ι κ T := mutate n b fun value => ops.orAssign value v

end Mutators

end Bindable

end QvPlugin.Utils
