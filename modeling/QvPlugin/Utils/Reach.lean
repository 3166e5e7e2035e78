import Mathlib.Logic.Relation
import QvPlugin.Utils.Propagation

/-!
How far a change of one Bindable gets. The signals carry it along the bindings as long as they lead
to Bindables that hold something else; a Bindable that already holds the value stops it.
-/

set_option autoImplicit false
set_option relaxedAutoImplicit false

namespace QvPlugin.Utils

universe u v w

namespace Bindable

variable {ι : Type u} {κ : Type v} {T : Type w}

/-- A binding that leads from `a` to a Bindable that does not hold `v`. -/
def Passes (n : Network ι κ T) (v : T) (a c : ι) : Prop :=
  Slot.set c ∈ n.slots a ∧ n.value c ≠ v

def Reaches (n : Network ι κ T) (v : T) : ι → ι → Prop := Relation.ReflTransGen (Passes n v)

def Told (n : Network ι κ T) (region : ι → Prop) (x : ι) (id : κ) : Prop :=
  region x ∧ Slot.callback id ∈ n.slots x

/-- The Bindables that are reached have taken `v`, emitted once, and told their callbacks `v`; the
others, and what all other callbacks were told, are as before. -/
structure Propagated (reached : ι → Prop) (v : T) (n n' : Network ι κ T) : Prop where
  slots : n'.slots = n.slots
  taken : ∀ x, reached x → n'.value x = v
  untouched : ∀ x, ¬ reached x → n'.value x = n.value x
  told : ∀ x id, Told n reached x id → n'.delivered x id = some v
  untold : ∀ x id, ¬ Told n reached x id → n'.delivered x id = n.delivered x id
  emitted : ∃ new : List ι, n'.emitted = n.emitted ++ new ∧ new.Nodup ∧ ∀ x, x ∈ new ↔ reached x

structure Confined (region : ι → Prop) (v : T) (n n' : Network ι κ T) : Prop where
  slots : n'.slots = n.slots
  kept : ∀ x, n.value x = v → n'.value x = v
  untouched : ∀ x, ¬ region x → n'.value x = n.value x
  untold : ∀ x id, ¬ Told n region x id → n'.delivered x id = n.delivered x id

theorem propagated_nowhere {reached : ι → Prop} {v : T} (nowhere : ∀ x, ¬ reached x)
    (n : Network ι κ T) : Propagated reached v n n where
  slots := rfl
  taken x here := absurd here (nowhere x)
  untouched _ _ := rfl
  told x _ here := absurd here.1 (nowhere x)
  untold _ _ _ := rfl
  emitted := by
    refine ⟨[], (List.append_nil _).symm, List.nodup_nil, fun x => ?_⟩
    exact ⟨fun member => absurd member List.not_mem_nil, fun here => absurd here (nowhere x)⟩

section Confined

variable {region wider : ι → Prop} {v : T} {n n' n'' : Network ι κ T} {a b x : ι}

theorem Confined.refl (n : Network ι κ T) : Confined region v n n where
  slots := rfl
  kept _ held := held
  untouched _ _ := rfl
  untold _ _ _ := rfl

theorem Confined.trans (first : Confined region v n n') (second : Confined region v n' n'') :
    Confined region v n n'' where
  slots := second.slots.trans first.slots
  kept x held := second.kept x (first.kept x held)
  untouched x outside := (second.untouched x outside).trans (first.untouched x outside)
  untold x id outside := by
    have outside' : ¬ Told n' region x id := by
      rw [Told, first.slots]
      exact outside
    exact (second.untold x id outside').trans (first.untold x id outside)

theorem Confined.widen (confined : Confined region v n n') (le : ∀ x, region x → wider x) :
    Confined wider v n n' where
  slots := confined.slots
  kept := confined.kept
  untouched x outside := confined.untouched x fun inside => outside (le x inside)
  untold x id outside := confined.untold x id fun inside => outside ⟨le x inside.1, inside.2⟩

theorem Confined.reaches (confined : Confined region v n n') (way : Reaches n' v a x) :
    Reaches n v a x := by
  refine Relation.ReflTransGen.mono ?_ a x way
  rintro a c ⟨slot, differ⟩
  rw [confined.slots] at slot
  exact ⟨slot, fun held => differ (confined.kept c held)⟩

theorem confined_log (n : Network ι κ T) (b : ι) : Confined region v n (n.log b) where
  slots := rfl
  kept _ held := held
  untouched _ _ := rfl
  untold _ _ _ := rfl

theorem Reaches.differ (way : Reaches n v b x) (other : x ≠ b) : n.value x ≠ v := by
  rcases Relation.ReflTransGen.cases_tail way with same | ⟨a, -, -, differ⟩
  · exact absurd same other
  · exact differ

variable [DecidableEq ι]

theorem confined_store (inside : region b) : Confined region v n (n.store b v) where
  slots := rfl
  kept x held := by
    by_cases here : x = b
    · rw [here]
      exact n.value_store_self b v
    · exact (n.value_store_of_ne here v).trans held
  untouched x outside := by
    have other : x ≠ b := fun here => outside (here ▸ inside)
    exact n.value_store_of_ne other v
  untold _ _ _ := rfl

variable [DecidableEq κ]

theorem confined_deliver (inside : region b) {id : κ} (slot : .callback id ∈ n.slots b) :
    Confined region v n (n.deliver b id) where
  slots := rfl
  kept _ held := held
  untouched _ _ := rfl
  untold x id' outside := by
    by_cases here : x = b
    · subst here
      have other : id' ≠ id := fun same => outside ⟨inside, same ▸ slot⟩
      simp [Network.deliver, other]
    · simp [Network.deliver, here]

end Confined

section Calls

variable [DecidableEq ι] [DecidableEq κ] {v : T} {b : ι}
  {set' : Network ι κ T → ι → T → Option (Network ι κ T)}

theorem confined_call
    (spec : ∀ n target n', set' n target v = some n' →
      Confined (fun x => n.value target ≠ v ∧ Reaches n v target x) v n n')
    {n n' : Network ι κ T} {slot : Slot ι κ} (member : slot ∈ n.slots b) (held : n.value b = v)
    (called : call set' b n slot = some n') : Confined (Reaches n v b) v n n' := by
  cases slot with
  | set target =>
      rw [call, held] at called
      refine (spec n target n' called).widen ?_
      rintro x ⟨differ, way⟩
      exact Relation.ReflTransGen.head ⟨member, differ⟩ way
  | callback id =>
      obtain rfl : n.deliver b id = n' := Option.some.inj called
      exact confined_deliver Relation.ReflTransGen.refl member

theorem confined_calls
    (spec : ∀ n target n', set' n target v = some n' →
      Confined (fun x => n.value target ≠ v ∧ Reaches n v target x) v n n')
    (slots : List (Slot ι κ)) {n n' : Network ι κ T} (members : ∀ slot ∈ slots, slot ∈ n.slots b)
    (held : n.value b = v) (called : slots.foldlM (call set' b) n = some n') :
    Confined (Reaches n v b) v n n' := by
  induction slots generalizing n with
  | nil =>
      obtain rfl : n = n' := Option.some.inj called
      exact Confined.refl n
  | cons slot slots ih =>
      rw [List.foldlM_cons] at called
      obtain ⟨middle, first, rest⟩ := Option.bind_eq_some_iff.mp called
      have confined := confined_call spec (members slot List.mem_cons_self) held first
      have later : ∀ slot' ∈ slots, slot' ∈ middle.slots b := by
        intro slot' member
        rw [confined.slots]
        exact members slot' (List.mem_cons_of_mem slot member)
      have confined' := ih later (confined.kept b held) rest
      exact confined.trans (confined'.widen fun x => confined.reaches)

theorem confined_emitNotify
    (spec : ∀ n target n', set' n target v = some n' →
      Confined (fun x => n.value target ≠ v ∧ Reaches n v target x) v n n')
    {n n' : Network ι κ T} (emitted : emitNotify set' (n.store b v) b = some n') :
    Confined (Reaches n v b) v n n' := by
  have stored : Confined (Reaches n v b) v n ((n.store b v).log b) :=
    (confined_store Relation.ReflTransGen.refl).trans (confined_log _ b)
  have called := confined_calls spec ((n.store b v).slots b) (n := (n.store b v).log b)
    (fun slot member => member) (n.value_store_self b v) emitted
  exact stored.trans (called.widen fun x => stored.reaches)

/-- `set` gets no further than there is a way, whatever the fuel. -/
theorem set_confined [DecidableEq T] (fuel : ℕ) (n : Network ι κ T) (b : ι)
    (n' : Network ι κ T) (returned : set fuel n b v = some n') :
    Confined (fun x => n.value b ≠ v ∧ Reaches n v b x) v n n' := by
  induction fuel generalizing n b n' with
  | zero => exact nomatch returned
  | succ fuel ih =>
      by_cases held : n.value b = v
      · rw [set_of_eq held] at returned
        obtain rfl : n = n' := Option.some.inj returned
        exact Confined.refl n
      · rw [set_of_ne held] at returned
        exact (confined_emitNotify ih returned).widen fun x way => ⟨held, way⟩

end Calls

section Exact

variable [DecidableEq ι] {v : T} {b : ι} {n n' : Network ι κ T}

theorem Spread.reached {region : ι → Prop} (spread : Spread region v ((n.store b v).log b) n')
    (published : Published n' b) {x : ι} (way : Reaches n v b x) :
    n'.value x = v ∧ Published n' x := by
  have here : n'.value b = v := spread.kept (n.value_store_self b v)
  induction way with
  | refl => exact ⟨here, published⟩
  | @tail a c _ last ih =>
      obtain ⟨held, publishedA⟩ := ih
      by_cases same : c = b
      · rw [same]
        exact ⟨here, published⟩
      · have slot : Slot.set c ∈ n'.slots a := by
          rw [spread.slots]
          exact last.1
        have now : n'.value c = v := (publishedA _ slot).trans held
        have differ : ((n.store b v).log b).value c ≠ v := by
          rw [Network.value_log, n.value_store_of_ne same]
          exact last.2
        exact ⟨now, spread.published c differ now⟩

/-- What has spread everywhere it can and is confined to where there is a way. -/
theorem Spread.propagated {region : ι → Prop}
    (spread : Spread region v ((n.store b v).log b) n') (published : Published n' b)
    (confined : Confined (Reaches n v b) v n n') : Propagated (Reaches n v b) v n n' where
  slots := confined.slots
  taken x way := (spread.reached published way).1
  untouched := confined.untouched
  told x id := by
    rintro ⟨way, slot⟩
    obtain ⟨now, publishedX⟩ := spread.reached published way
    rw [← confined.slots] at slot
    exact (publishedX _ slot).trans (congrArg some now)
  untold := confined.untold
  emitted := by
    obtain ⟨new, log, nodup, members⟩ := spread.emitted
    have notAgain : b ∉ new := fun again =>
      ((members b).mp again).1 (n.value_store_self b v)
    refine ⟨b :: new, ?_, List.nodup_cons.mpr ⟨notAgain, nodup⟩, fun x => ?_⟩
    · rw [log]
      exact List.append_assoc n.emitted [b] new
    · rw [List.mem_cons, members, Network.value_log]
      constructor
      · rintro (here | ⟨differ, now⟩)
        · rw [here]
          exact Relation.ReflTransGen.refl
        · -- it changed after the emission began, so it is not among what is left alone
          have other : x ≠ b := fun here => differ (here ▸ n.value_store_self b v)
          rw [n.value_store_of_ne other] at differ
          by_contra noWay
          exact differ ((confined.untouched x noWay).symm.trans now)
      · intro way
        by_cases here : x = b
        · exact Or.inl here
        · refine Or.inr ⟨?_, (spread.reached published way).1⟩
          rw [n.value_store_of_ne here]
          exact way.differ here

variable [DecidableEq κ] [DecidableEq T] [Fintype ι]

theorem emitNotify_propagates {fuel : ℕ} (enough : pending v (n.store b v) < fuel) :
    ∃ n', emitNotify (set fuel) (n.store b v) b = some n' ∧ Propagated (Reaches n v b) v n n' := by
  have everywhere : Closed (fun _ => True) (n.store b v) := fun _ _ _ _ => trivial
  obtain ⟨n', emitted, spread, published⟩ := spread_emitNotify
    (fun n target => set_spreads fuel n target) everywhere trivial (n.value_store_self b v) enough
  exact ⟨n', emitted, spread.propagated published (confined_emitNotify (set_confined fuel) emitted)⟩

theorem set_propagates {fuel : ℕ} (enough : Fintype.card ι < fuel) (n : Network ι κ T) (b : ι)
    (v : T) :
    ∃ n', set fuel n b v = some n' ∧
      Propagated (fun x => n.value b ≠ v ∧ Reaches n v b x) v n n' := by
  obtain ⟨fuel, rfl⟩ : ∃ k, fuel = k + 1 := ⟨fuel - 1, by omega⟩
  by_cases held : n.value b = v
  · exact ⟨n, set_of_eq held, propagated_nowhere (fun x reached => reached.1 held) n⟩
  · have less := pending_store_lt held
    have most := pending_le v n
    have within : pending v (n.store b v) < fuel := by omega
    obtain ⟨n', emitted, propagated⟩ := emitNotify_propagates within
    have reached : (fun x => n.value b ≠ v ∧ Reaches n v b x) = Reaches n v b := by
      funext x
      exact propext ⟨And.right, And.intro held⟩
    rw [reached]
    exact ⟨n', (set_of_ne held).trans emitted, propagated⟩

theorem Deserialize_propagates {fuel : ℕ} (enough : Fintype.card ι < fuel) (n : Network ι κ T)
    (b : ι) (decode : T → T) :
    ∃ n', Deserialize fuel n b decode = some n' ∧
      Propagated (Reaches n (decode (n.value b)) b) (decode (n.value b)) n n' :=
  emitNotify_propagates (lt_of_le_of_lt (pending_le _ _) enough)

/-- An assignment of `v` to `b` reaches what there is a way to, and nothing at all where `b` holds
`v` already. A load gets just as far, but sets out even where `b` holds what it reads. The callbacks
are told the value and do not write to a Bindable themselves. -/
theorem change_reaches {fuel : ℕ} (enough : Fintype.card ι < fuel) (n : Network ι κ T) (b : ι) :
    (∀ v, ∃ n', assign fuel n b v = some n' ∧
      Propagated (fun x => n.value b ≠ v ∧ Reaches n v b x) v n n') ∧
    (∀ decode : T → T, ∃ n', Deserialize fuel n b decode = some n' ∧
      Propagated (Reaches n (decode (n.value b)) b) (decode (n.value b)) n n') :=
  ⟨set_propagates enough n b, Deserialize_propagates enough n b⟩

end Exact

section Circle

/-- Three Bindables in a circle, of which the third holds `1` already, and a fourth behind it. -/
def circle : Network (Fin 4) ℕ ℕ where
  value b := if b = 2 then 1 else 0
  slots b :=
    if b = 0 then [.set 1]
    else if b = 1 then [.callback 0, .set 2]
    else if b = 2 then [.set 0, .set 3]
    else []
  emitted := []
  delivered _ _ := none

theorem reaches_circle_iff (x : Fin 4) : Reaches circle 1 0 x ↔ x = 0 ∨ x = 1 := by
  constructor
  · intro way
    induction way with
    | refl => exact Or.inl rfl
    | @tail a c _ last ih =>
        obtain ⟨slot, differ⟩ := last
        rcases ih with rfl | rfl
        · exact Or.inr (by simpa [circle] using slot)
        · have third : c = 2 := by simpa [circle] using slot
          exact absurd (third ▸ rfl) differ
  · rintro (rfl | rfl)
    · exact Relation.ReflTransGen.refl
    · exact Relation.ReflTransGen.single ⟨by decide, by decide⟩

/-- A `1` given to the first: it and the second hold it and have emitted once, the callback of the
second was told, and what is behind the third is as before. -/
theorem change_reaches_circle :
    ∃ n', assign 5 circle 0 1 = some n' ∧ n'.value 0 = 1 ∧ n'.value 1 = 1 ∧ n'.value 3 = 0 ∧
      n'.delivered 1 0 = some 1 ∧ n'.emitted.Perm [0, 1] := by
  have enough : Fintype.card (Fin 4) < 5 := by decide
  obtain ⟨n', returned, propagated⟩ := (change_reaches enough circle 0).1 1
  have reached (x : Fin 4) : (circle.value 0 ≠ 1 ∧ Reaches circle 1 0 x) ↔ x = 0 ∨ x = 1 := by
    rw [reaches_circle_iff]
    exact and_iff_right (by decide)
  refine ⟨n', returned, propagated.taken 0 ((reached 0).mpr (Or.inl rfl)),
    propagated.taken 1 ((reached 1).mpr (Or.inr rfl)),
    propagated.untouched 3 (mt (reached 3).mp (by decide)),
    propagated.told 1 0 ⟨(reached 1).mpr (Or.inr rfl), by decide⟩, ?_⟩
  obtain ⟨new, emitted, nodup, members⟩ := propagated.emitted
  have all : n'.emitted = new := emitted
  rw [all, List.perm_ext_iff_of_nodup nodup (by decide)]
  intro x
  rw [members, reached]
  simp

end Circle

end Bindable

end QvPlugin.Utils
