import QvPlugin.Utils.RoundTrip

/-! How much of the target a reload leaves in place. -/

set_option autoImplicit false
set_option relaxedAutoImplicit false

namespace QvPlugin.Utils

open Lib Qt Common

mutual

/-- Two targets hold the same wherever loading `x.toJson()` keeps what is there. A list, a set
or a map that is loaded is cleared first, so only struct members keep anything. -/
def Ty.Settles : {α : Type} → Ty α → α → α → α → Prop
  | _, .leaf _, _, _, _ => True
  | _, .list _ _, _, _, _ => True
  | _, @Ty.set _ _ _ _, _, _, _ => True
  | _, .map _ _, _, _, _ => True
  | _, .struct c, x, y₁, y₂ => c.Settles x y₁ y₂

def Clauses.Settles : {S : Type} → Clauses S → S → S → S → Prop
  | _, .nil, _, _, _ => True
  | _, .F _ member t rest, x, y₁, y₂ =>
      ((t.Omitted (member.get x) → t.Agree (member.get y₁) (member.get y₂)) ∧
        (¬t.Omitted (member.get x) → t.Settles (member.get x) (member.get y₁) (member.get y₂))) ∧
      rest.Settles x y₁ y₂
  | _, @Clauses.P _ _ _ _ _ member t rest, x, y₁, y₂ =>
      (((member.get x).isDefault = true ∨ t.Omitted (member.get x).value →
          t.Agree (member.get y₁).value (member.get y₂).value) ∧
        (¬((member.get x).isDefault = true ∨ t.Omitted (member.get x).value) →
          t.Settles (member.get x).value (member.get y₁).value (member.get y₂).value)) ∧
      rest.Settles x y₁ y₂
  | _, .B base clauses rest, x, y₁, y₂ =>
      clauses.Settles (base.get x) (base.get y₁) (base.get y₂) ∧ rest.Settles x y₁ y₂

end

variable (p : Platform)

private theorem agree_of_same {α : Type} {t : Ty α} {z₁ z₂ : α} (same : z₁ = z₂) :
    t.Agree z₁ z₂ := by
  rw [same]
  exact t.agree_refl z₂

private theorem agree_saveLoadF_iff {α : Type} {t : Ty α} (wf : t.Wf) {x y₁ y₂ : α}
    (inner : t.Agree (t.saveLoad p y₁ x) (t.saveLoad p y₂ x) ↔ t.Settles x y₁ y₂) :
    t.Agree (t.saveLoadF p y₁ x) (t.saveLoadF p y₂ x) ↔
      (t.Omitted x → t.Agree y₁ y₂) ∧ (¬t.Omitted x → t.Settles x y₁ y₂) := by
  by_cases left : t.Omitted x
  · rw [Ty.saveLoadF_of_omitted wf y₁ left, Ty.saveLoadF_of_omitted wf y₂ left]
    exact ⟨fun same => ⟨fun _ => same, fun h => absurd left h⟩, fun h => h.1 left⟩
  · rw [Ty.saveLoadF_of_not_omitted wf y₁ left, Ty.saveLoadF_of_not_omitted wf y₂ left, inner]
    exact ⟨fun settles => ⟨fun h => absurd h left, fun _ => settles⟩, fun h => h.2 left⟩

mutual

theorem Ty.agree_saveLoad_iff : {α : Type} → (t : Ty α) → t.Wf → (x y₁ y₂ : α) →
    (t.Agree (t.saveLoad p y₁ x) (t.saveLoad p y₂ x) ↔ t.Settles x y₁ y₂)
  | _, .leaf k, _, x, y₁, y₂ => by
      have same : (Ty.leaf k).saveLoad p y₁ x = (Ty.leaf k).saveLoad p y₂ x := by
        simp only [Ty.saveLoad, Ty.deserialize]
      rw [Ty.Settles, iff_true]
      exact agree_of_same same
  | _, .list t fresh, _, xs, ys₁, ys₂ => by
      have same : (Ty.list t fresh).saveLoad p ys₁ xs = (Ty.list t fresh).saveLoad p ys₂ xs := by
        rw [Ty.saveLoad_list, Ty.saveLoad_list]
      rw [Ty.Settles, iff_true]
      exact agree_of_same same
  | _, @Ty.set _ _ t fresh, _, s, s₁, s₂ => by
      have same : (Ty.set t fresh).saveLoad p s₁ s = (Ty.set t fresh).saveLoad p s₂ s := by
        rw [Ty.saveLoad_set, Ty.saveLoad_set]
      rw [Ty.Settles, iff_true]
      exact agree_of_same same
  | _, .map t fresh, _, m, m₁, m₂ => by
      have same : (Ty.map t fresh).saveLoad p m₁ m = (Ty.map t fresh).saveLoad p m₂ m := by
        simp only [Ty.saveLoad, Ty.deserialize]
      rw [Ty.Settles, iff_true]
      exact agree_of_same same
  | _, .struct c, wf, x, y₁, y₂ => by
      rw [Ty.Wf] at wf
      rw [Ty.Agree, Ty.saveLoad_struct, Ty.saveLoad_struct, Ty.Settles]
      exact c.agree_iff_of_reloaded wf (Clauses.reloaded p wf y₁ x) (Clauses.reloaded p wf y₂ x)

theorem Clauses.agree_iff_of_reloaded : {S : Type} → (c : Clauses S) → c.Wf →
    {x y₁ y₂ z₁ z₂ : S} → c.Reloaded p y₁ x z₁ → c.Reloaded p y₂ x z₂ →
    (c.Agree z₁ z₂ ↔ c.Settles x y₁ y₂)
  | _, .nil, _, _, _, _, _, _, _, _ => by rw [Clauses.Agree, Clauses.Settles]
  | _, .F name member t rest, wf, x, y₁, y₂, z₁, z₂, first, second => by
      rw [Clauses.Wf] at wf
      rw [Clauses.Reloaded] at first second
      obtain ⟨wfT, -, -, wfRest⟩ := wf
      have own := agree_saveLoadF_iff p wfT (t.agree_saveLoad_iff wfT (member.get x)
        (member.get y₁) (member.get y₂))
      have others := rest.agree_iff_of_reloaded wfRest first.2 second.2
      rw [Clauses.Agree, Clauses.Settles, first.1, second.1, own, others]
  | _, @Clauses.P _ _ _ name defaultvalue member t rest, wf, x, y₁, y₂, z₁, z₂, first, second => by
      rw [Clauses.Wf] at wf
      rw [Clauses.Reloaded] at first second
      obtain ⟨wfT, -, -, wfRest⟩ := wf
      have own := agree_saveLoadF_iff p wfT (t.agree_saveLoad_iff wfT (member.get x).value
        (member.get y₁).value (member.get y₂).value)
      have others := rest.agree_iff_of_reloaded wfRest first.2 second.2
      rw [Clauses.Agree, Clauses.Settles, first.1, second.1, others, Bindable.isDefault_iff,
        Ty.saveLoadP, Ty.saveLoadP]
      apply and_congr_left'
      by_cases default : (member.get x).value = defaultvalue
      · simp [default]
      · rw [if_neg default, if_neg default, own]
        simp only [default, false_or]
  | _, .B base clauses rest, wf, x, y₁, y₂, z₁, z₂, first, second => by
      rw [Clauses.Wf] at wf
      rw [Clauses.Reloaded] at first second
      obtain ⟨wfBase, -, -, wfRest⟩ := wf
      have inner := clauses.agree_iff_of_reloaded wfBase
        (Clauses.reloaded p wfBase (base.get y₁) (base.get x))
        (Clauses.reloaded p wfBase (base.get y₂) (base.get x))
      have others := rest.agree_iff_of_reloaded wfRest first.2 second.2
      rw [Clauses.Agree, Clauses.Settles, first.1, second.1, inner, others]

end

end QvPlugin.Utils
