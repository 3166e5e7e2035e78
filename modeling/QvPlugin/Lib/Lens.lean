import Mathlib.Logic.Basic

set_option autoImplicit false
set_option relaxedAutoImplicit false

namespace QvPlugin.Lib

universe u v w x

/-- A data member of a record, as a getter and a setter. -/
structure Lens (S : Type u) (α : Type v) where
  get : S → α
  set : α → S → S
  get_set : ∀ a s, get (set a s) = a := by intros; rfl
  set_get : ∀ s, set (get s) s = s := by intros; rfl
  set_set : ∀ a b s, set a (set b s) = set a s := by intros; rfl

namespace Lens

variable {S : Type u} {α : Type v} {β : Type w} {γ : Type x}

protected def id : Lens S S where
  get s := s
  set a _ := a

/-- Two members of one record that share no storage: writes to them commute. -/
def Apart (l : Lens S α) (m : Lens S β) : Prop :=
  ∀ a b s, l.set a (m.set b s) = m.set b (l.set a s)

theorem Apart.symm {l : Lens S α} {m : Lens S β} (apart : l.Apart m) : m.Apart l :=
  fun b a s => (apart a b s).symm

theorem Apart.get_set {l : Lens S α} {m : Lens S β} (apart : l.Apart m) (a : α) (s : S) :
    m.get (l.set a s) = m.get s := by
  have rewritten : l.set a s = m.set (m.get s) (l.set a s) := by
    rw [← apart, m.set_get]
  rw [rewritten, m.get_set]

def comp (l : Lens S α) (m : Lens α β) : Lens S β where
  get s := m.get (l.get s)
  set b s := l.set (m.set b (l.get s)) s
  get_set b s := by rw [l.get_set, m.get_set]
  set_get s := by rw [m.set_get, l.set_get]
  set_set a b s := by rw [l.get_set, m.set_set, l.set_set]

theorem Apart.comp_left {l : Lens S α} {n : Lens S γ} (apart : l.Apart n) (m : Lens α β) :
    (l.comp m).Apart n := by
  intro b c s
  have untouched : l.get (n.set c s) = l.get s := apart.symm.get_set c s
  show l.set (m.set b (l.get (n.set c s))) (n.set c s) = n.set c (l.set (m.set b (l.get s)) s)
  rw [untouched, apart]

theorem Apart.comp_right {l : Lens S α} {n : Lens S γ} (apart : n.Apart l) (m : Lens α β) :
    n.Apart (l.comp m) :=
  (apart.symm.comp_left m).symm

/-- Separate members of a member are separate in the whole. -/
theorem Apart.comp_inner {m : Lens α β} {n : Lens α γ} (apart : m.Apart n) (l : Lens S α) :
    (l.comp m).Apart (l.comp n) := by
  intro b c s
  show l.set (m.set b (l.get (l.set (n.set c (l.get s)) s))) (l.set (n.set c (l.get s)) s) =
    l.set (n.set c (l.get (l.set (m.set b (l.get s)) s))) (l.set (m.set b (l.get s)) s)
  rw [l.get_set, l.get_set, l.set_set, l.set_set, apart]

end Lens

end QvPlugin.Lib
