import Mathlib.Data.Finset.Card
import Mathlib.Data.Fintype.Basic
import Mathlib.Data.Fintype.Card
import QvPlugin.Utils.Bindable

/-!
What a propagation does. A Bindable that is given the value `v` passes it on and is never changed
again, so the nested calls are bounded by the number of Bindables that do not hold `v` yet.
-/

set_option autoImplicit false
set_option relaxedAutoImplicit false

namespace QvPlugin.Utils

universe u v w

namespace Bindable

variable {ι : Type u} {κ : Type v} {T : Type w}

/-- What the slot was last given is the current value of `b`. -/
def UpToDate (n : Network ι κ T) (b : ι) : Slot ι κ → Prop
  | .set target => n.value target = n.value b
  | .callback id => n.delivered b id = some (n.value b)

def Published (n : Network ι κ T) (b : ι) : Prop := ∀ slot ∈ n.slots b, UpToDate n b slot

def Closed (region : ι → Prop) (n : Network ι κ T) : Prop :=
  ∀ x target, region x → Slot.set target ∈ n.slots x → region target

/-- `v` has spread within a region: each Bindable there holds what it held or `v`; those that
changed have emitted once, in some order, and have published `v`; nothing else was delivered. -/
structure Spread (region : ι → Prop) (v : T) (n n' : Network ι κ T) : Prop where
  slots : n'.slots = n.slots
  value : ∀ x, n'.value x = n.value x ∨ (region x ∧ n'.value x = v)
  emitted : ∃ new : List ι, n'.emitted = n.emitted ++ new ∧ new.Nodup ∧
    ∀ x, x ∈ new ↔ n.value x ≠ v ∧ n'.value x = v
  delivered : ∀ x id, n'.delivered x id = n.delivered x id ∨
    (n'.value x = v ∧ n'.delivered x id = some v)
  published : ∀ x, n.value x ≠ v → n'.value x = v → Published n' x

section Spread

variable {region : ι → Prop} {v : T} {n n' n'' : Network ι κ T}

theorem Spread.kept (spread : Spread region v n n') {x : ι} (held : n.value x = v) :
    n'.value x = v := by
  rcases spread.value x with same | ⟨-, now⟩
  · rw [same, held]
  · exact now

theorem Spread.closed (spread : Spread region v n n') (closed : Closed region n) :
    Closed region n' := by
  intro x target inside slot
  rw [spread.slots] at slot
  exact closed x target inside slot

theorem Spread.upToDate (spread : Spread region v n n') {x : ι} (held : n.value x = v)
    {slot : Slot ι κ} (before : UpToDate n x slot) : UpToDate n' x slot := by
  have now := spread.kept held
  cases slot with
  | set target =>
      have targetHeld : n.value target = v := by
        rw [show n.value target = n.value x from before, held]
      show n'.value target = n'.value x
      rw [spread.kept targetHeld, now]
  | callback id =>
      have given : n.delivered x id = some v := by
        rw [show n.delivered x id = some (n.value x) from before, held]
      show n'.delivered x id = some (n'.value x)
      rw [now]
      rcases spread.delivered x id with same | ⟨-, again⟩
      · rw [same, given]
      · exact again

theorem Spread.stillPublished (spread : Spread region v n n') {x : ι} (held : n.value x = v)
    (before : Published n x) : Published n' x := by
  intro slot member
  rw [spread.slots] at member
  exact spread.upToDate held (before slot member)

theorem Spread.refl (n : Network ι κ T) : Spread region v n n where
  slots := rfl
  value x := Or.inl rfl
  emitted := by
    refine ⟨[], (List.append_nil _).symm, List.nodup_nil, fun x => ?_⟩
    constructor
    · intro member
      exact absurd member List.not_mem_nil
    · rintro ⟨differ, same⟩
      exact absurd same differ
  delivered x id := Or.inl rfl
  published x differ same := absurd same differ

theorem Spread.trans (first : Spread region v n n') (second : Spread region v n' n'') :
    Spread region v n n'' where
  slots := second.slots.trans first.slots
  value x := by
    rcases second.value x with same | changed
    · rw [same]
      exact first.value x
    · exact Or.inr changed
  emitted := by
    obtain ⟨new, log, nodup, members⟩ := first.emitted
    obtain ⟨new', log', nodup', members'⟩ := second.emitted
    refine ⟨new ++ new', ?_, ?_, fun x => ?_⟩
    · rw [log', log, List.append_assoc]
    · apply List.Nodup.append nodup nodup'
      intro x member member'
      exact ((members' x).mp member').1 ((members x).mp member).2
    · rw [List.mem_append, members, members']
      constructor
      · rintro (⟨differ, now⟩ | ⟨differ, now⟩)
        · exact ⟨differ, second.kept now⟩
        · exact ⟨fun held => differ (first.kept held), now⟩
      · rintro ⟨differ, now⟩
        by_cases middle : n'.value x = v
        · exact Or.inl ⟨differ, middle⟩
        · exact Or.inr ⟨middle, now⟩
  delivered x id := by
    rcases second.delivered x id with same | given
    · rcases first.delivered x id with same' | ⟨held, given⟩
      · exact Or.inl (same.trans same')
      · exact Or.inr ⟨second.kept held, same.trans given⟩
    · exact Or.inr given
  published x differ now := by
    by_cases middle : n'.value x = v
    · exact second.stillPublished middle (first.published x differ middle)
    · exact second.published x middle now

end Spread

section Calls

variable [DecidableEq ι] {region : ι → Prop} {v : T}

theorem Spread.of_store {n n' : Network ι κ T} {b : ι} (differ : n.value b ≠ v)
    (inside : region b) (spread : Spread region v ((n.store b v).log b) n')
    (published : Published n' b) : Spread region v n n' := by
  have here : ((n.store b v).log b).value b = v := n.value_store_self b v
  have elsewhere : ∀ x, x ≠ b → ((n.store b v).log b).value x = n.value x := fun x other =>
    n.value_store_of_ne other v
  constructor
  · exact spread.slots
  · intro x
    by_cases same : x = b
    · rw [same]
      exact Or.inr ⟨inside, spread.kept here⟩
    · rw [← elsewhere x same]
      exact spread.value x
  · obtain ⟨new, log, nodup, members⟩ := spread.emitted
    have notAgain : b ∉ new := fun again => ((members b).mp again).1 here
    refine ⟨b :: new, ?_, List.nodup_cons.mpr ⟨notAgain, nodup⟩, fun x => ?_⟩
    · rw [log]
      exact List.append_assoc n.emitted [b] new
    · rw [List.mem_cons, members]
      by_cases same : x = b
      · rw [same]
        exact ⟨fun _ => ⟨differ, spread.kept here⟩, fun _ => Or.inl rfl⟩
      · rw [elsewhere x same]
        exact ⟨fun member => member.resolve_left same, Or.inr⟩
  · exact spread.delivered
  · intro x differX now
    by_cases same : x = b
    · rw [same]
      exact published
    · rw [← elsewhere x same] at differX
      exact spread.published x differX now

variable [DecidableEq κ]

theorem spread_deliver {n : Network ι κ T} {b : ι}
    (held : n.value b = v) (id : κ) : Spread region v n (n.deliver b id) where
  slots := rfl
  value x := Or.inl rfl
  emitted := (show Spread region v n n from Spread.refl n).emitted
  delivered x id' := by
    by_cases here : x = b ∧ id' = id
    · obtain ⟨rfl, rfl⟩ := here
      refine Or.inr ⟨held, ?_⟩
      simp [Network.deliver, held]
    · refine Or.inl ?_
      by_cases same : x = b
      · subst same
        have other : id' ≠ id := fun equal => here ⟨rfl, equal⟩
        simp [Network.deliver, other]
      · simp [Network.deliver, same]
  published x differ same := absurd same differ

theorem upToDate_deliver (n : Network ι κ T) (b : ι) (id : κ) :
    UpToDate (n.deliver b id) b (.callback id) := by
  simp [UpToDate, Network.deliver]

theorem spread_call {set' : Network ι κ T → ι → T → Option (Network ι κ T)} {n : Network ι κ T}
    {b : ι} {slot : Slot ι κ}
    (spec : ∀ target, slot = .set target →
      ∃ n', set' n target v = some n' ∧ Spread region v n n' ∧ n'.value target = v)
    (held : n.value b = v) :
    ∃ n', call set' b n slot = some n' ∧ Spread region v n n' ∧ UpToDate n' b slot := by
  cases slot with
  | set target =>
      obtain ⟨n', returned, spread, reached⟩ := spec target rfl
      refine ⟨n', ?_, spread, ?_⟩
      · rw [call, held, returned]
      · show n'.value target = n'.value b
        rw [reached, spread.kept held]
  | callback id => exact ⟨n.deliver b id, rfl, spread_deliver held id, upToDate_deliver n b id⟩

end Calls

section Termination

variable [DecidableEq T] [Fintype ι] {region : ι → Prop} {v : T}

def pending (v : T) (n : Network ι κ T) : ℕ := (Finset.univ.filter fun x => n.value x ≠ v).card

theorem pending_le (v : T) (n : Network ι κ T) : pending v n ≤ Fintype.card ι :=
  Finset.card_le_univ _

theorem Spread.pending_le {n n' : Network ι κ T} (spread : Spread region v n n') :
    pending v n' ≤ pending v n := by
  apply Finset.card_le_card
  intro x member
  rw [Finset.mem_filter] at member ⊢
  exact ⟨member.1, fun held => member.2 (spread.kept held)⟩

variable [DecidableEq ι]

theorem pending_store_lt {n : Network ι κ T} {b : ι} (differ : n.value b ≠ v) :
    pending v (n.store b v) < pending v n := by
  apply Finset.card_lt_card
  rw [Finset.ssubset_iff_of_subset]
  · exact ⟨b, by simpa using differ, by simp⟩
  · intro x member
    rw [Finset.mem_filter] at member ⊢
    refine ⟨member.1, fun held => member.2 ?_⟩
    by_cases here : x = b
    · rw [here]
      exact n.value_store_self b v
    · exact (n.value_store_of_ne here v).trans held

variable [DecidableEq κ]

/-- The slots of `b` called one after another; the induction is on the slots that remain, and what
the earlier ones did stays done. -/
theorem spread_calls {set' : Network ι κ T → ι → T → Option (Network ι κ T)} {bound : ℕ}
    (spec : ∀ n target, Closed region n → region target → pending v n < bound →
      ∃ n', set' n target v = some n' ∧ Spread region v n n' ∧ n'.value target = v)
    (b : ι) (slots : List (Slot ι κ)) (inside : ∀ target, Slot.set target ∈ slots → region target)
    {n : Network ι κ T} (closed : Closed region n) (held : n.value b = v)
    (enough : pending v n < bound) :
    ∃ n', slots.foldlM (call set' b) n = some n' ∧ Spread region v n n' ∧
      ∀ slot ∈ slots, UpToDate n' b slot := by
  induction slots generalizing n with
  | nil => exact ⟨n, rfl, Spread.refl n, fun slot member => absurd member List.not_mem_nil⟩
  | cons slot slots ih =>
      have head : ∀ target, slot = .set target →
          ∃ n', set' n target v = some n' ∧ Spread region v n n' ∧ n'.value target = v := by
        intro target here
        rw [here] at inside
        exact spec n target closed (inside target List.mem_cons_self) enough
      obtain ⟨middle, called, spread, upToDate⟩ := spread_call head held
      have heldMiddle := spread.kept held
      have enoughMiddle : pending v middle < bound := lt_of_le_of_lt spread.pending_le enough
      obtain ⟨last, rest, spread', upToDate'⟩ := ih
        (fun target member => inside target (List.mem_cons_of_mem slot member))
        (spread.closed closed) heldMiddle enoughMiddle
      refine ⟨last, ?_, spread.trans spread', ?_⟩
      · rw [List.foldlM_cons, called]
        exact rest
      · intro slot' member
        rcases List.mem_cons.mp member with here | later
        · rw [here]
          exact spread'.upToDate heldMiddle upToDate
        · exact upToDate' slot' later

theorem spread_emitNotify {set' : Network ι κ T → ι → T → Option (Network ι κ T)} {bound : ℕ}
    (spec : ∀ n target, Closed region n → region target → pending v n < bound →
      ∃ n', set' n target v = some n' ∧ Spread region v n n' ∧ n'.value target = v)
    {n : Network ι κ T} {b : ι} (closed : Closed region n) (inside : region b)
    (held : n.value b = v) (enough : pending v n < bound) :
    ∃ n', emitNotify set' n b = some n' ∧ Spread region v (n.log b) n' ∧ Published n' b := by
  obtain ⟨n', called, spread, upToDate⟩ := spread_calls spec b (n.slots b)
    (fun target slot => closed b target inside slot) (n := n.log b) closed held enough
  refine ⟨n', called, spread, ?_⟩
  intro slot member
  rw [spread.slots] at member
  exact upToDate slot member

/-- `set` returns as soon as the fuel exceeds the number of Bindables without `v`, and spreads `v`
within every region that no slot leaves. -/
theorem set_spreads (fuel : ℕ) (n : Network ι κ T) (b : ι) (closed : Closed region n)
    (inside : region b) (enough : pending v n < fuel) :
    ∃ n', set fuel n b v = some n' ∧ Spread region v n n' ∧ n'.value b = v := by
  induction fuel generalizing n b with
  | zero => exact absurd enough (Nat.not_lt_zero _)
  | succ fuel ih =>
      by_cases held : n.value b = v
      · exact ⟨n, set_of_eq held, Spread.refl n, held⟩
      · have less := pending_store_lt held
        have here := n.value_store_self b v
        obtain ⟨n', emitted, spread, published⟩ := spread_emitNotify
          (fun n target => ih n target) (n := n.store b v) closed inside here (by omega)
        refine ⟨n', ?_, spread.of_store held inside published, spread.kept here⟩
        rw [set_of_ne held, emitted]

theorem EmitNotify_spreads {fuel : ℕ} {n : Network ι κ T} {b : ι} (closed : Closed region n)
    (inside : region b) (enough : Fintype.card ι < fuel) :
    ∃ n', EmitNotify fuel n b = some n' ∧ Spread region (n.value b) (n.log b) n' ∧
      Published n' b :=
  spread_emitNotify (fun n target => set_spreads fuel n target) closed inside rfl
    (lt_of_le_of_lt (pending_le _ n) enough)

end Termination

end Bindable

end QvPlugin.Utils
