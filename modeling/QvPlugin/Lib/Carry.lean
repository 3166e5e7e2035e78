import Mathlib.Data.List.Chain
import QvPlugin.Lib.KeyMap

/-!
A loop that fills a map and hands each round's value to the next round, as one does whose
accumulator is declared before it. Its rounds are independent only where each one forgets what
the round before left.
-/

set_option autoImplicit false
set_option relaxedAutoImplicit false

namespace QvPlugin.Lib

universe u v

variable {κ : Type u} {ν : Type v} [LinearOrder κ]

/-- Each round makes a value from the one before and stores it under the round's key. -/
def carry (rounds : List (κ × (ν → ν))) (state : ν × KeyMap κ ν) : ν × KeyMap κ ν :=
  rounds.foldl (fun state e => (e.2 state.1, state.2.set e.1 (e.2 state.1))) state

/-- A round forgets the value that the round before it makes of `fresh`. -/
def Forgets (fresh : ν) (before after : κ × (ν → ν)) : Prop :=
  after.2 (before.2 fresh) = after.2 fresh

theorem carry_cons (e : κ × (ν → ν)) (rounds : List (κ × (ν → ν))) (state : ν × KeyMap κ ν) :
    carry (e :: rounds) state = carry rounds (e.2 state.1, state.2.set e.1 (e.2 state.1)) := rfl

theorem lookup_carry_of_not_mem {rounds : List (κ × (ν → ν))} {k : κ}
    (absent : k ∉ rounds.map Prod.fst) (state : ν × KeyMap κ ν) :
    (carry rounds state).2.lookup k = state.2.lookup k := by
  induction rounds generalizing state with
  | nil => rfl
  | cons e rounds ih =>
      rw [List.map_cons, List.mem_cons, not_or] at absent
      rw [carry_cons, ih absent.2, KeyMap.lookup_set, if_neg absent.1]

private theorem lookup_carry_head {e : κ × (ν → ν)} {rounds : List (κ × (ν → ν))}
    (absent : e.1 ∉ rounds.map Prod.fst) (state : ν × KeyMap κ ν) :
    (carry (e :: rounds) state).2.lookup e.1 = some (e.2 state.1) := by
  rw [carry_cons, lookup_carry_of_not_mem absent, KeyMap.lookup_set, if_pos rfl]

private theorem expected_cons {e : κ × (ν → ν)} {rounds : List (κ × (ν → ν))}
    (absent : e.1 ∉ rounds.map Prod.fst) (fresh : ν) (m : KeyMap κ ν) (k : κ) :
    (((e :: rounds).lookup k).map (fun round => round fresh)).or (m.lookup k) =
      ((rounds.lookup k).map (fun round => round fresh)).or
        ((m.set e.1 (e.2 fresh)).lookup k) := by
  rw [List.lookup_cons, KeyMap.lookup_set]
  by_cases own : k = e.1
  · have later : rounds.lookup k = none := by
      rw [List.lookup_eq_none_iff]
      intro e' member
      have other : k ≠ e'.1 := by
        intro same
        exact absent (own ▸ same ▸ List.mem_map_of_mem member)
      simpa using other
    have found : (k == e.1) = true := beq_iff_eq.mpr own
    rw [found, if_pos own, later]
    rfl
  · have other : (k == e.1) = false := beq_eq_false_iff_ne.mpr own
    rw [other, if_neg own]

private theorem lookup_carry_cons_iff (fresh : ν) (rounds : List (κ × (ν → ν)))
    (e : κ × (ν → ν)) (nodup : ((e :: rounds).map Prod.fst).Nodup) (previous : ν)
    (forgets : e.2 previous = e.2 fresh) (m : KeyMap κ ν) :
    (∀ k, (carry (e :: rounds) (previous, m)).2.lookup k =
        (((e :: rounds).lookup k).map (fun round => round fresh)).or (m.lookup k)) ↔
      List.IsChain (Forgets fresh) (e :: rounds) := by
  induction rounds generalizing e previous m with
  | nil =>
      refine ⟨fun _ => List.isChain_singleton e, fun _ k => ?_⟩
      rw [expected_cons (by simp), carry_cons, forgets]
      rfl
  | cons e' rounds ih =>
      rw [List.map_cons, List.nodup_cons] at nodup
      obtain ⟨absent, others⟩ := nodup
      have expected := expected_cons absent fresh m
      rw [List.isChain_cons_cons]
      simp only [expected]
      rw [carry_cons, forgets]
      constructor
      · intro right
        have absent' : e'.1 ∉ rounds.map Prod.fst := by
          rw [List.map_cons, List.nodup_cons] at others
          exact others.1
        have own := right e'.1
        rw [lookup_carry_head absent', List.lookup_cons_self, Option.map_some, Option.some_or,
          Option.some_inj] at own
        exact ⟨own, (ih e' others (e.2 fresh) own _).mp right⟩
      · rintro ⟨own, chain⟩
        exact (ih e' others (e.2 fresh) own _).mpr chain

/-- The loop stores under every key what its round makes of `fresh` exactly when each round forgets
what the round before it left. -/
theorem lookup_carry_iff (fresh : ν) {rounds : List (κ × (ν → ν))}
    (nodup : (rounds.map Prod.fst).Nodup) :
    (∀ k, (carry rounds (fresh, ∅)).2.lookup k = (rounds.lookup k).map fun round => round fresh) ↔
      rounds.IsChain (Forgets fresh) := by
  cases rounds with
  | nil =>
      refine ⟨fun _ => List.isChain_nil, fun _ k => ?_⟩
      exact KeyMap.lookup_empty k
  | cons e rounds =>
      have start := lookup_carry_cons_iff fresh rounds e nodup fresh rfl ∅
      simp only [KeyMap.lookup_empty, Option.or_none] at start
      exact start

end QvPlugin.Lib
