import Mathlib.Data.Fintype.Basic
import QvPlugin.Lib.Run
import QvPlugin.Utils.Propagation

/-!
Whether the observers of a Bindable are up to date. `operator=` and the loads publish what they
write; the other mutating operators write to `value` behind the back of `notify`.
-/

set_option autoImplicit false
set_option relaxedAutoImplicit false

namespace QvPlugin.Utils

open Lib

universe u v w

namespace Bindable

variable {ι : Type u} {κ : Type v} {T : Type w} {V : Type v}

inductive Registration (ι : Type u) (κ : Type v) where
  | observe (id : κ)
  | writeBind (propTarget : ι)

def Registration.slot : Registration ι κ → Slot ι κ
  | .observe id => .callback id
  | .writeBind propTarget => .set propTarget

inductive Change (ι : Type u) (T : Type w) (V : Type v) where
  | assign (f : T)
  | assignFrom (f : ι)
  | load (decode : T → T)
  | increment
  | decrement
  | shiftLeft (another : V)
  | shiftRight (another : V)
  | addAssign (v : V)
  | subAssign (v : V)
  | mulAssign (v : V)
  | divAssign (v : V)
  | andAssign (v : V)
  | modAssign (v : V)
  | orAssign (v : V)

/-- The operator of `T` that is applied to `value` directly, for the operations that do so. -/
def Change.direct (ops : Operators T V) : Change ι T V → Option (T → T)
  | .assign _ | .assignFrom _ | .load _ => none
  | .increment => some ops.increment
  | .decrement => some ops.decrement
  | .shiftLeft another => some fun value => ops.shiftLeft value another
  | .shiftRight another => some fun value => ops.shiftRight value another
  | .addAssign v => some fun value => ops.addAssign value v
  | .subAssign v => some fun value => ops.subAssign value v
  | .mulAssign v => some fun value => ops.mulAssign value v
  | .divAssign v => some fun value => ops.divAssign value v
  | .andAssign v => some fun value => ops.andAssign value v
  | .modAssign v => some fun value => ops.modAssign value v
  | .orAssign v => some fun value => ops.orAssign value v

/-- The operation goes through `set` or `EmitNotify`, or its operator leaves the value as it is. -/
def Change.Keeps (ops : Operators T V) (b : ι) (n : Network ι κ T) (change : Change ι T V) : Prop :=
  ∀ f, change.direct ops = some f → f (n.value b) = n.value b

variable [DecidableEq ι] [DecidableEq κ] [DecidableEq T]

def Registration.step (fuel : ℕ) (b : ι) (n : Network ι κ T) :
    Registration ι κ → Option (Network ι κ T)
  | .observe id => some (Observe n b id)
  | .writeBind propTarget => WriteBind fuel n b propTarget

def Change.step (ops : Operators T V) (fuel : ℕ) (b : ι) (n : Network ι κ T) :
    Change ι T V → Option (Network ι κ T)
  | .assign f => Bindable.assign fuel n b f
  | .assignFrom f => Bindable.assignFrom fuel n b f
  | .load decode => Deserialize fuel n b decode
  | .increment => some (Bindable.increment ops n b)
  | .decrement => some (Bindable.decrement ops n b)
  | .shiftLeft another => some (Bindable.shiftLeft ops n b another)
  | .shiftRight another => some (Bindable.shiftRight ops n b another)
  | .addAssign v => some (Bindable.addAssign ops n b v)
  | .subAssign v => some (Bindable.subAssign ops n b v)
  | .mulAssign v => some (Bindable.mulAssign ops n b v)
  | .divAssign v => some (Bindable.divAssign ops n b v)
  | .andAssign v => some (Bindable.andAssign ops n b v)
  | .modAssign v => some (Bindable.modAssign ops n b v)
  | .orAssign v => some (Bindable.orAssign ops n b v)

section Publishing

omit [DecidableEq ι] [DecidableEq κ] [DecidableEq T] in
theorem Spread.publishes {region : ι → Prop} {v : T} {n n' : Network ι κ T} {b : ι}
    (spread : Spread region v n n') (reached : n'.value b = v) (before : Published n b) :
    Published n' b := by
  by_cases held : n.value b = v
  · exact spread.stillPublished held before
  · exact spread.published b held reached

omit [DecidableEq ι] [DecidableEq κ] [DecidableEq T] in
theorem closed_everywhere (n : Network ι κ T) : Closed (fun _ => True) n :=
  fun _ _ _ _ => trivial

variable [Fintype ι] {fuel : ℕ} {n : Network ι κ T} {b : ι}

theorem set_spreads_everywhere (enough : Fintype.card ι < fuel) (n : Network ι κ T) (b : ι) (v : T) :
    ∃ n', set fuel n b v = some n' ∧ Spread (fun _ => True) v n n' ∧ n'.value b = v :=
  set_spreads fuel n b (closed_everywhere n) trivial (lt_of_le_of_lt (pending_le v n) enough)

theorem set_publishes (enough : Fintype.card ι < fuel) (before : Published n b) (v : T) :
    ∃ n', set fuel n b v = some n' ∧ Published n' b ∧ n'.slots = n.slots := by
  obtain ⟨n', returned, spread, reached⟩ := set_spreads_everywhere enough n b v
  exact ⟨n', returned, spread.publishes reached before, spread.slots⟩

theorem Deserialize_publishes (enough : Fintype.card ι < fuel) (n : Network ι κ T) (b : ι)
    (decode : T → T) :
    ∃ n', Deserialize fuel n b decode = some n' ∧ Published n' b ∧ n'.slots = n.slots := by
  obtain ⟨n', returned, spread, published⟩ := EmitNotify_spreads
    (closed_everywhere (n.store b (decode (n.value b)))) (b := b) trivial enough
  exact ⟨n', returned, published, spread.slots⟩

end Publishing

section Registrations

omit [DecidableEq κ] [DecidableEq T] in
theorem upToDate_connect {n : Network ι κ T} {b : ι} {slot : Slot ι κ} (new : Slot ι κ) :
    UpToDate (n.connect b new) b slot ↔ UpToDate n b slot := by
  cases slot <;> rfl

omit [DecidableEq κ] [DecidableEq T] in
theorem published_connect {n : Network ι κ T} {b : ι} {new : Slot ι κ} (before : Published n b)
    (upToDate : UpToDate n b new) : Published (n.connect b new) b := by
  intro slot member
  rw [upToDate_connect]
  rcases (n.mem_slots_connect b b new slot).mp member with old | ⟨-, here⟩
  · exact before slot old
  · rw [here]
    exact upToDate

theorem Registration.step_publishes [Fintype ι] {fuel : ℕ} (enough : Fintype.card ι < fuel)
    {n : Network ι κ T} {b : ι} (before : Published n b) (registration : Registration ι κ) :
    ∃ n', Registration.step fuel b n registration = some n' ∧ Published n' b ∧
      n'.slots b = n.slots b ++ [registration.slot] := by
  cases registration with
  | observe id =>
      have connected : (n.deliver b id).connect b (.callback id) = Observe n b id := rfl
      have spread : Spread (fun _ => True) (n.value b) n (n.deliver b id) := spread_deliver rfl id
      have published := published_connect (spread.publishes rfl before) (upToDate_deliver n b id)
      rw [connected] at published
      exact ⟨Observe n b id, rfl, published, by simp [Observe, Network.connect, slot]⟩
  | writeBind propTarget =>
      obtain ⟨n', returned, spread, reached⟩ :=
        set_spreads_everywhere enough n propTarget (n.value b)
      have held := spread.kept rfl
      have upToDate : UpToDate n' b (.set propTarget) := reached.trans held.symm
      refine ⟨n'.connect b (.set propTarget), ?_,
        published_connect (spread.publishes held before) upToDate, ?_⟩
      · show (set fuel n propTarget (n.value b)).map _ = _
        rw [returned]
        rfl
      · simp [Network.connect, spread.slots, slot]

/-- After any registrations on a Bindable without slots, it has the slots registered, and all of
them are up to date. -/
theorem registered_published [Fintype ι] {fuel : ℕ} (enough : Fintype.card ι < fuel)
    {n₀ : Network ι κ T} {b : ι} (fresh : n₀.slots b = [])
    (registrations : List (Registration ι κ)) :
    ∃ n, run (Registration.step fuel b) n₀ registrations = some n ∧ Published n b ∧
      n.slots b = registrations.map Registration.slot := by
  have steps : ∀ (n : Network ι κ T) (slots : List (Slot ι κ)) registration,
      Published n b ∧ n.slots b = slots →
        ∃ n', Registration.step fuel b n registration = some n' ∧
          Published n' b ∧ n'.slots b = slots ++ [registration.slot] := by
    rintro n slots registration ⟨published, same⟩
    rw [← same]
    exact Registration.step_publishes enough published registration
  have start : Published n₀ b ∧ n₀.slots b = [] := by
    refine ⟨fun slot member => ?_, fresh⟩
    rw [fresh] at member
    exact absurd member List.not_mem_nil
  obtain ⟨n, ran, published, slots⟩ := run_simulates steps start registrations
  refine ⟨n, ran, published, ?_⟩
  rw [slots, List.foldl_append_eq_append, List.nil_append, ← List.flatMap_def,
    ← List.map_eq_flatMap]

end Registrations

section Changes

variable {fuel : ℕ} {ops : Operators T V} {n n' : Network ι κ T} {b : ι} {change : Change ι T V}

theorem Change.step_direct {f : T → T} (direct : change.direct ops = some f) :
    Change.step ops fuel b n change = some (mutate n b f) := by
  cases change <;> cases direct <;> rfl

omit [DecidableEq κ] [DecidableEq T] in
theorem published_mutate_iff {target : ι} (other : target ≠ b) (bound : .set target ∈ n.slots b)
    (before : Published n b) (f : T → T) : Published (mutate n b f) b ↔ f (n.value b) = n.value b := by
  constructor
  · intro after
    have then' : (mutate n b f).value target = (mutate n b f).value b := after (.set target) bound
    have now : n.value target = n.value b := before (.set target) bound
    unfold mutate at then'
    rw [n.value_store_of_ne other, n.value_store_self, now] at then'
    exact then'.symm
  · intro same
    unfold mutate
    rw [same, n.store_value_self]
    exact before

variable [Fintype ι]

theorem Change.step_publishes (enough : Fintype.card ι < fuel) (before : Published n b)
    (indirect : change.direct ops = none) :
    ∃ n', Change.step ops fuel b n change = some n' ∧ Published n' b ∧ n'.slots = n.slots := by
  cases change with
  | assign f => exact set_publishes enough before f
  | assignFrom f => exact set_publishes enough before (n.value f)
  | load decode => exact Deserialize_publishes enough n b decode
  | _ => exact nomatch indirect

/-- One operation on a published Bindable with a target: it returns, and the Bindable stays
published exactly under the condition. -/
theorem Change.step_published_iff (enough : Fintype.card ι < fuel) {target : ι} (other : target ≠ b)
    (bound : .set target ∈ n.slots b) (before : Published n b)
    (stepped : Change.step ops fuel b n change = some n') :
    Published n' b ↔ change.Keeps ops b n := by
  cases direct : change.direct ops with
  | some f =>
      rw [Change.step_direct direct] at stepped
      rw [← Option.some.inj stepped, published_mutate_iff other bound before]
      constructor
      · intro same g direct'
        rw [← Option.some.inj (direct.symm.trans direct')]
        exact same
      · intro keeps
        exact keeps f direct
  | none =>
      obtain ⟨m, stepped', published, -⟩ := Change.step_publishes enough before direct
      have same : m = n' := Option.some.inj (stepped'.symm.trans stepped)
      rw [← same]
      exact ⟨fun _ f direct' => (nomatch direct.symm.trans direct'), fun _ => published⟩

theorem Change.step_slots (ops : Operators T V) (b : ι) (enough : Fintype.card ι < fuel)
    (n : Network ι κ T) (change : Change ι T V) :
    ∃ n', Change.step ops fuel b n change = some n' ∧ n'.slots = n.slots := by
  have given : ∀ v, ∃ n', set fuel n b v = some n' ∧ n'.slots = n.slots := by
    intro v
    obtain ⟨n', returned, spread, -⟩ := set_spreads_everywhere enough n b v
    exact ⟨n', returned, spread.slots⟩
  cases direct : change.direct ops with
  | some f => exact ⟨mutate n b f, Change.step_direct direct, rfl⟩
  | none =>
      cases change with
      | assign f => exact given f
      | assignFrom f => exact given (n.value f)
      | load decode =>
          obtain ⟨n', returned, -, slots⟩ := Deserialize_publishes enough n b decode
          exact ⟨n', returned, slots⟩
      | _ => exact nomatch direct

end Changes

section Main

variable [Fintype ι]

/-- After every operation of a run the observers and the targets of a Bindable hold its current
value exactly when no operation of the run changes `value` directly. -/
theorem observers_current_iff (ops : Operators T V) (fuel : ℕ) (enough : Fintype.card ι < fuel)
    (n₀ : Network ι κ T) (b : ι) (fresh : n₀.slots b = [])
    (registrations : List (Registration ι κ)) (target : ι) (other : target ≠ b)
    (bound : .writeBind target ∈ registrations) (n : Network ι κ T)
    (registered : run (Registration.step fuel b) n₀ registrations = some n)
    (changes : List (Change ι T V)) :
    Throughout (Change.step ops fuel b) (fun n => Published n b) n changes ↔
      EachAction (Change.step ops fuel b) (fun n change => change.Keeps ops b n) n changes := by
  obtain ⟨n', registered', published, slots⟩ :=
    registered_published enough fresh registrations
  have same : n' = n := Option.some.inj (registered'.symm.trans registered)
  rw [same] at published slots
  have slot : Slot.set target ∈ n.slots b := by
    rw [slots]
    exact List.mem_map.mpr ⟨.writeBind target, bound, rfl⟩
  have succeeds : ∀ (m : Network ι κ T) (change : Change ι T V), Slot.set target ∈ m.slots b →
      ∃ m', Change.step ops fuel b m change = some m' ∧ Slot.set target ∈ m'.slots b := by
    intro m change slotM
    obtain ⟨m', stepped, slotsM⟩ := Change.step_slots ops b enough m change
    refine ⟨m', stepped, ?_⟩
    rw [slotsM]
    exact slotM
  have exact_step : ∀ (m : Network ι κ T) (change : Change ι T V) m', Slot.set target ∈ m.slots b →
      Published m b → Change.step ops fuel b m change = some m' →
        (Published m' b ↔ change.Keeps ops b m) := by
    intro m change m' slotM before stepped
    exact Change.step_published_iff enough other slotM before stepped
  exact throughout_iff_eachAction succeeds exact_step slot published changes

end Main

section Counter

/-- What the operators of a C++ `int` make of it; its shifts do not change the left operand. -/
def intOperators : Operators Int32 Int32 where
  increment value := value + 1
  decrement value := value - 1
  shiftLeft value _ := value
  shiftRight value _ := value
  addAssign value v := value + v
  subAssign value v := value - v
  mulAssign value v := value * v
  divAssign value v := value / v
  andAssign value v := value &&& v
  modAssign value v := value % v
  orAssign value v := value ||| v

def twoCounters : Network Bool Unit Int32 where
  value _ := 0
  slots _ := []
  emitted := []
  delivered _ _ := none

/-- An observed counter that is bound to another one is assigned, loaded and shifted: its observer
and its target are current throughout. -/
theorem assigned_counter_current :
    ∃ n, run (Registration.step 3 false) twoCounters [.observe (), .writeBind true] = some n ∧
      Throughout (Change.step intOperators 3 false) (fun n => Published n false) n
        [.assign 5, .load fun _ => 7, .shiftLeft 1] := by
  refine ⟨_, rfl, (observers_current_iff intOperators 3 (by decide) twoCounters false rfl
    [.observe (), .writeBind true] true (by decide) (by simp) _ rfl _).mpr ?_⟩
  refine ⟨?_, fun _ _ => ⟨?_, fun _ _ => ⟨?_, fun _ _ => trivial⟩⟩⟩
  · exact fun f direct => absurd direct (by simp [Change.direct])
  · exact fun f direct => absurd direct (by simp [Change.direct])
  · intro f direct
    rw [← Option.some.inj direct]
    rfl

/-- `++` on it: the counter holds 1, its target and its observer still 0. -/
theorem incremented_counter_stale :
    ¬ ∀ (n : Network Bool Unit Int32) (changes : List (Change Bool Int32 Int32)),
      run (Registration.step 3 false) twoCounters [.observe (), .writeBind true] = some n →
        Throughout (Change.step intOperators 3 false) (fun n => Published n false) n changes := by
  intro claim
  obtain ⟨-, n', stepped, published⟩ := claim _ [.increment] rfl
  rw [← Option.some.inj stepped] at published
  have stale : (0 : Int32) = 1 := published (.set true) (by decide)
  exact absurd stale (by decide)

end Counter

end Bindable

end QvPlugin.Utils
