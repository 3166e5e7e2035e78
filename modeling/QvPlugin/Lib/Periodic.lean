import Mathlib.Data.Finset.Image
import Mathlib.Dynamics.PeriodicPts.Lemmas

set_option autoImplicit false
set_option relaxedAutoImplicit false

namespace QvPlugin.Lib

universe u

open Function

variable {α : Type u}

/-- `f` has no cycle but fixed points. -/
def FixesPeriodic (f : α → α) : Prop := ∀ x ∈ periodicPts f, f x = x

/-- On a finite set that `f` maps onto itself, `f` permutes the elements. -/
theorem mem_periodicPts_of_image_eq [DecidableEq α] {f : α → α} {s : Finset α}
    (onto : s.image f = s) {x : α} (hx : x ∈ s) : x ∈ periodicPts f := by
  have stays : Set.MapsTo f s s := by
    intro v hv
    have moved : f v ∈ s.image f := Finset.mem_image_of_mem f hv
    rwa [onto] at moved
  let g : s → s := fun v => ⟨f v, stays v.2⟩
  have surjective : Surjective g := by
    intro v
    have hit : v.1 ∈ s.image f := onto.symm ▸ v.2
    obtain ⟨w, hw, image⟩ := Finset.mem_image.mp hit
    exact ⟨⟨w, hw⟩, Subtype.ext image⟩
  have injective : Injective g := Finite.injective_iff_surjective.mpr surjective
  have periodic : (⟨x, hx⟩ : s) ∈ periodicPts g := Injective.mem_periodicPts injective _
  have forget : Semiconj Subtype.val g f := fun _ => rfl
  exact forget.mapsTo_periodicPts periodic

theorem FixesPeriodic.eq_of_image_eq [DecidableEq α] {f : α → α} (fixes : FixesPeriodic f)
    {s : Finset α} (onto : s.image f = s) : ∀ x ∈ s, f x = x :=
  fun x hx => fixes x (mem_periodicPts_of_image_eq onto hx)

private theorem mem_periodicPts_of_iterate {f : α → α} {n : ℕ} (pos : 0 < n) {x : α}
    (periodic : x ∈ periodicPts f^[n]) : x ∈ periodicPts f := by
  obtain ⟨m, hm, period⟩ := periodic
  refine ⟨n * m, Nat.mul_pos pos hm, ?_⟩
  rw [IsPeriodicPt, iterate_mul]
  exact period

theorem FixesPeriodic.image [DecidableEq α] {f : α → α} (fixes : FixesPeriodic f) :
    FixesPeriodic (Finset.image f) := by
  intro s periodic
  obtain ⟨n, pos, period⟩ := periodic
  have iterated (k : ℕ) : (Finset.image f)^[k] s = s.image f^[k] := by
    induction k with
    | zero => exact Finset.image_id.symm
    | succ k ih => rw [iterate_succ_apply', ih, Finset.image_image, iterate_succ']
  have onto : s.image f^[n] = s := by
    rw [← iterated]
    exact period
  have fixed : ∀ x ∈ s, f x = x := fun x hx =>
    fixes x (mem_periodicPts_of_iterate pos (mem_periodicPts_of_image_eq onto hx))
  calc
    s.image f = s.image id := Finset.image_congr fixed
    _ = s := Finset.image_id

theorem FixesPeriodic.map {f : α → α} (fixes : FixesPeriodic f) : FixesPeriodic (List.map f) := by
  intro xs periodic
  obtain ⟨n, pos, period⟩ := periodic
  have iterated (k : ℕ) : (List.map f)^[k] xs = xs.map f^[k] := by
    induction k with
    | zero => exact (List.map_id xs).symm
    | succ k ih => rw [iterate_succ_apply', ih, List.map_map, iterate_succ']
  have each : xs.map f^[n] = xs.map id := by
    rw [← iterated, List.map_id]
    exact period
  have fixed : ∀ x ∈ xs, f x = x := by
    intro x hx
    have returns : f^[n] x = x := List.map_inj_left.mp each x hx
    exact fixes x ⟨n, pos, returns⟩
  calc
    xs.map f = xs.map id := List.map_congr_left fixed
    _ = xs := List.map_id xs

/-- Sending a region `P` to one point makes no new cycle, if `h` enters `P` at that point only. -/
theorem FixesPeriodic.reset {g h : α → α} {P : α → Prop} {c : α} (fixes : FixesPeriodic h)
    (inside : ∀ v, P v → g v = c) (outside : ∀ v, ¬P v → g v = h v)
    (entry : ∀ v, ¬P v → P (h v) → h v = c) : FixesPeriodic g := by
  intro x periodic
  obtain ⟨n, pos, period⟩ := periodic
  by_cases meets : ∃ k, P (g^[k] x)
  · obtain ⟨k, hk⟩ := meets
    have reached : ∀ v, P (g v) → g v = c := by
      intro v hv
      by_cases here : P v
      · exact inside v here
      · rw [outside v here] at hv ⊢
        exact entry v here hv
    have arrives : g^[k] x = c := by
      have cycle : g^[k] (g^[n] x) = g^[k] x := congrArg g^[k] period
      obtain ⟨m, rfl⟩ : ∃ m, n = m + 1 := ⟨n - 1, by omega⟩
      rw [← iterate_add_apply, ← Nat.add_assoc, iterate_succ_apply'] at cycle
      rw [← cycle] at hk ⊢
      exact reached _ hk
    have stuck : g c = c := inside c (arrives ▸ hk)
    have settled : IsPeriodicPt g 1 (g^[k] x) := by
      rw [arrives]
      exact stuck
    exact isPeriodicPt_of_mem_periodicPts_of_isPeriodicPt_iterate ⟨n, pos, period⟩ settled
  · have avoids : ∀ k, ¬P (g^[k] x) := fun k hk => meets ⟨k, hk⟩
    have same (k : ℕ) : g^[k] x = h^[k] x := by
      induction k with
      | zero => rfl
      | succ k ih => rw [iterate_succ_apply', iterate_succ_apply', outside _ (avoids k), ih]
    have fixed : h x = x := fixes x ⟨n, pos, by rw [IsPeriodicPt, IsFixedPt, ← same]; exact period⟩
    rw [outside x (avoids 0), fixed]

end QvPlugin.Lib
