import Mathlib.Data.Setoid.Basic
import Mathlib.Order.CompletePartialOrder
import Mathlib.Order.ConditionallyCompleteLattice.Basic
import Mathlib.Order.GaloisConnection.Basic

/-!
Cells that share values: the cells are joined into groups, and each group has one value.
This is what a set of two-way bindings is for.
-/

set_option autoImplicit false
set_option relaxedAutoImplicit false

namespace QvPlugin.Lib

universe u v

/-- Groups of cells with one value for each group. -/
structure Shared (ι : Type u) (T : Type v) where
  joined : Setoid ι
  value : ι → T
  agree : joined ≤ Setoid.ker value

namespace Shared

variable {ι : Type u} {T : Type v}

def separate (value : ι → T) : Shared ι T where
  joined := ⊥
  value := value
  agree := bot_le

open Classical in
noncomputable def write (s : Shared ι T) (a : ι) (v : T) : Shared ι T where
  joined := s.joined
  value x := if s.joined a x then v else s.value x
  agree := by
    intro x y together
    rw [Setoid.ker_def]
    by_cases left : s.joined a x
    · have right : s.joined a y := s.joined.trans' left together
      rw [if_pos left, if_pos right]
    · have right : ¬ s.joined a y := fun hit => left (s.joined.trans' hit (s.joined.symm' together))
      rw [if_neg left, if_neg right]
      exact s.agree together

/-- The groups of `a` and `b` become one, with the value of `a`. -/
noncomputable def join (s : Shared ι T) (a b : ι) : Shared ι T where
  joined := s.joined ⊔ Relation.EqvGen.setoid fun x y => x = a ∧ y = b
  value := (s.write b (s.value a)).value
  agree := by
    apply sup_le (s.write b (s.value a)).agree
    apply Setoid.eqvGen_le
    rintro x y ⟨rfl, rfl⟩
    rw [Setoid.ker_def]
    have right : (s.write y (s.value x)).value y = s.value x := if_pos (s.joined.refl' y)
    rw [right]
    by_cases left : s.joined y x
    · exact if_pos left
    · exact if_neg left

theorem value_write_joined {s : Shared ι T} {a x : ι} (together : s.joined a x) (v : T) :
    (s.write a v).value x = v := if_pos together

theorem value_write_apart {s : Shared ι T} {a x : ι} (apart : ¬ s.joined a x) (v : T) :
    (s.write a v).value x = s.value x := if_neg apart

end Shared

section Generated

variable {ι : Type u}

/-- A property that no related pair tells apart is one of whole groups. -/
theorem iff_of_eqvGen {r : ι → ι → Prop} {p : ι → Prop} (closed : ∀ x y, r x y → (p x ↔ p y))
    {a b : ι} (together : Relation.EqvGen r a b) : p a ↔ p b := by
  induction together with
  | rel x y related => exact closed x y related
  | refl x => exact Iff.rfl
  | symm x y _ ih => exact ih.symm
  | trans x y z _ _ first second => exact first.trans second

theorem setoid_or (r r' : ι → ι → Prop) :
    Relation.EqvGen.setoid (fun x y => r x y ∨ r' x y) =
      Relation.EqvGen.setoid r ⊔ Relation.EqvGen.setoid r' := GaloisConnection.l_sup Setoid.gi.gc

theorem setoid_link (a b : ι) :
    Relation.EqvGen.setoid (fun x y => (x = a ∧ y = b) ∨ (x = b ∧ y = a)) =
      Relation.EqvGen.setoid fun x y => x = a ∧ y = b := by
  apply le_antisymm
  · apply Setoid.eqvGen_le
    rintro x y (⟨rfl, rfl⟩ | ⟨rfl, rfl⟩)
    · exact Relation.EqvGen.rel x y ⟨rfl, rfl⟩
    · exact Relation.EqvGen.symm y x (Relation.EqvGen.rel y x ⟨rfl, rfl⟩)
  · exact Setoid.eqvGen_mono fun x y pair => Or.inl pair

end Generated

end QvPlugin.Lib
