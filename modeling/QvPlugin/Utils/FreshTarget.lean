import QvPlugin.Utils.RoundTrip

/-!
Targets that take any value. A fresh instance with empty containers and every `Bindable` at
its default is restored whatever was saved, as long as JSON carries the leaves.
-/

set_option autoImplicit false
set_option relaxedAutoImplicit false

namespace QvPlugin.Utils

open Lib Qt Common

def Leaf.Blank : {α : Type} → Leaf α → α → Prop
  | _, .object, o => o = ∅
  | _, .safeJson _, t => t.raw = ∅
  | _, _, _ => True

mutual

/-- Everything that `toJson` can leave out is what the target holds. -/
def Ty.Blank : {α : Type} → Ty α → α → Prop
  | _, .leaf k, y => k.Blank y
  | _, .list t fresh, ys => ys = [] ∧ t.Blank fresh
  | _, @Ty.set _ _ t fresh, s => s = ∅ ∧ t.Blank fresh
  | _, .map t _, m => m = ∅ ∧ ∀ y, t.Blank y
  | _, .struct c, y => c.Blank y

def Clauses.Blank : {S : Type} → Clauses S → S → Prop
  | _, .nil, _ => True
  | _, .F _ member t rest, y => t.Blank (member.get y) ∧ rest.Blank y
  | _, @Clauses.P _ _ _ _ defaultvalue member t rest, y =>
      ((member.get y).value = defaultvalue ∧ t.Blank (member.get y).value) ∧ rest.Blank y
  | _, .B base clauses rest, y => clauses.Blank (base.get y) ∧ rest.Blank y

end

mutual

def Ty.Carried : {α : Type} → Ty α → α → Prop
  | _, .leaf k, x => k.Carried x
  | _, .list t _, xs => ∀ x ∈ xs, t.Carried x
  | _, @Ty.set _ _ t _, s => ∀ x ∈ s, t.Carried x
  | _, .map t _, m => ∀ x ∈ m.entries.map Prod.snd, t.Carried x
  | _, .struct c, x => c.Carried x

def Clauses.Carried : {S : Type} → Clauses S → S → Prop
  | _, .nil, _ => True
  | _, .F _ member t rest, x => t.Carried (member.get x) ∧ rest.Carried x
  | _, @Clauses.P _ _ _ _ _ member t rest, x => t.Carried (member.get x).value ∧ rest.Carried x
  | _, .B base clauses rest, x => clauses.Carried (base.get x) ∧ rest.Carried x

end

mutual

theorem Ty.carried_of_plain : {α : Type} → {t : Ty α} → t.Plain → (x : α) → t.Carried x
  | _, .leaf k, plain, x => by
      rw [Ty.Plain] at plain
      rw [Ty.Carried]
      exact Leaf.carried_of_plain plain x
  | _, .list t _, plain, xs => by
      rw [Ty.Plain] at plain
      rw [Ty.Carried]
      exact fun x _ => Ty.carried_of_plain plain x
  | _, @Ty.set _ _ t _, plain, s => by
      rw [Ty.Plain] at plain
      rw [Ty.Carried]
      exact fun x _ => Ty.carried_of_plain plain x
  | _, .map _ _, plain, _ => by
      rw [Ty.Plain] at plain
      exact False.elim plain
  | _, .struct c, plain, x => by
      rw [Ty.Plain] at plain
      rw [Ty.Carried]
      exact Clauses.carried_of_plain plain x

theorem Clauses.carried_of_plain : {S : Type} → {c : Clauses S} → c.Plain → (x : S) → c.Carried x
  | _, .nil, _, _ => by rw [Clauses.Carried]; trivial
  | _, .F _ member t rest, plain, x => by
      rw [Clauses.Plain] at plain
      rw [Clauses.Carried]
      exact ⟨Ty.carried_of_plain plain.1 _, Clauses.carried_of_plain plain.2 x⟩
  | _, @Clauses.P _ _ _ _ _ member t rest, plain, x => by
      rw [Clauses.Plain] at plain
      rw [Clauses.Carried]
      exact ⟨Ty.carried_of_plain plain.1 _, Clauses.carried_of_plain plain.2 x⟩
  | _, .B base clauses rest, plain, x => by
      rw [Clauses.Plain] at plain
      rw [Clauses.Carried]
      exact ⟨Clauses.carried_of_plain plain.1 _, Clauses.carried_of_plain plain.2 x⟩

end

private theorem Leaf.eq_of_blank {α : Type} {k : Leaf α} {y x : α} (blank : k.Blank y)
    (left : k.Omitted x) : y = x := by
  cases k with
  | object => exact blank.trans left.symm
  | safeJson tag =>
      obtain ⟨raw⟩ := x
      obtain ⟨raw'⟩ := y
      exact congrArg SafeJsonType.mk (blank.trans left.symm)
  | _ => exact False.elim left

mutual

theorem Ty.agree_of_blank : {α : Type} → (t : Ty α) → {y x : α} → t.Blank y → t.Omitted x →
    t.Agree y x
  | _, .leaf k, y, x, blank, left => by
      rw [Ty.Blank] at blank
      rw [Ty.Omitted] at left
      rw [Ty.Agree]
      exact k.eq_of_blank blank left
  | _, .list t fresh, ys, xs, blank, left => by
      rw [Ty.Blank] at blank
      rw [Ty.Omitted] at left
      rw [blank.1, left]
      exact Ty.agree_refl _ _
  | _, @Ty.set _ _ t fresh, s', s, blank, left => by
      rw [Ty.Blank] at blank
      rw [Ty.Omitted] at left
      rw [blank.1, left]
      exact Ty.agree_refl _ _
  | _, .map t fresh, m', m, blank, left => by
      rw [Ty.Blank] at blank
      rw [Ty.Omitted] at left
      rw [blank.1, left]
      exact Ty.agree_refl _ _
  | _, .struct c, y, x, blank, left => by
      rw [Ty.Blank] at blank
      rw [Ty.Omitted] at left
      rw [Ty.Agree]
      exact c.agree_of_blank blank left

theorem Clauses.agree_of_blank : {S : Type} → (c : Clauses S) → {y x : S} → c.Blank y →
    c.Omitted x → c.Agree y x
  | _, .nil, _, _, _, _ => by rw [Clauses.Agree]; trivial
  | _, .F _ member t rest, y, x, blank, left => by
      rw [Clauses.Blank] at blank
      rw [Clauses.Omitted] at left
      rw [Clauses.Agree]
      exact ⟨t.agree_of_blank blank.1 left.1, rest.agree_of_blank blank.2 left.2⟩
  | _, @Clauses.P _ _ _ _ defaultvalue member t rest, y, x, blank, left => by
      rw [Clauses.Blank] at blank
      rw [Clauses.Omitted, Bindable.isDefault_iff] at left
      rw [Clauses.Agree]
      refine ⟨?_, rest.agree_of_blank blank.2 left.2⟩
      rcases left.1 with default | own
      · rw [blank.1.1, default]
        exact t.agree_refl defaultvalue
      · exact t.agree_of_blank blank.1.2 own
  | _, .B base clauses rest, y, x, blank, left => by
      rw [Clauses.Blank] at blank
      rw [Clauses.Omitted] at left
      rw [Clauses.Agree]
      exact ⟨clauses.agree_of_blank blank.1 left.1, rest.agree_of_blank blank.2 left.2⟩

end

mutual

/-- A blank target can be turned into any value that JSON carries. -/
theorem Ty.restorable_of_blank : {α : Type} → (t : Ty α) → {y x : α} → t.Blank y → t.Carried x →
    t.Restorable y x
  | _, .leaf k, _, _, _, carried => by
      rw [Ty.Carried] at carried
      rw [Ty.Restorable]
      exact carried
  | _, .list t fresh, _, xs, blank, carried => by
      rw [Ty.Blank] at blank
      rw [Ty.Carried] at carried
      rw [Ty.Restorable]
      exact fun x hx => t.restorable_of_blank blank.2 (carried x hx)
  | _, @Ty.set _ _ t fresh, _, s, blank, carried => by
      rw [Ty.Blank] at blank
      rw [Ty.Carried] at carried
      rw [Ty.Restorable]
      exact fun x hx => t.restorable_of_blank blank.2 (carried x hx)
  | _, .map t fresh, _, m, blank, carried => by
      rw [Ty.Blank] at blank
      rw [Ty.Carried] at carried
      rw [Ty.Restorable]
      exact fun x hx y _ => t.restorable_of_blank (blank.2 y) (carried x hx)
  | _, .struct c, _, _, blank, carried => by
      rw [Ty.Blank] at blank
      rw [Ty.Carried] at carried
      rw [Ty.Restorable]
      exact c.restorable_of_blank blank carried

theorem Clauses.restorable_of_blank : {S : Type} → (c : Clauses S) → {y x : S} → c.Blank y →
    c.Carried x → c.Restorable y x
  | _, .nil, _, _, _, _ => by rw [Clauses.Restorable]; trivial
  | _, .F _ member t rest, y, x, blank, carried => by
      rw [Clauses.Blank] at blank
      rw [Clauses.Carried] at carried
      rw [Clauses.Restorable]
      refine ⟨⟨fun h => ?_, fun _ => ?_⟩, rest.restorable_of_blank blank.2 carried.2⟩
      · exact t.agree_of_blank blank.1 h
      · exact t.restorable_of_blank blank.1 carried.1
  | _, @Clauses.P _ _ _ _ defaultvalue member t rest, y, x, blank, carried => by
      rw [Clauses.Blank] at blank
      rw [Clauses.Carried] at carried
      rw [Clauses.Restorable, Bindable.isDefault_iff]
      refine ⟨⟨fun h => ?_, fun _ => ?_⟩, rest.restorable_of_blank blank.2 carried.2⟩
      · rcases h with default | left
        · rw [blank.1.1, default]
          exact t.agree_refl defaultvalue
        · exact t.agree_of_blank blank.1.2 left
      · exact t.restorable_of_blank blank.1.2 carried.1
  | _, .B base clauses rest, y, x, blank, carried => by
      rw [Clauses.Blank] at blank
      rw [Clauses.Carried] at carried
      rw [Clauses.Restorable]
      exact ⟨clauses.restorable_of_blank blank.1 carried.1,
        rest.restorable_of_blank blank.2 carried.2⟩

end

variable (p : Platform)

/-- A target of a fully listed type that becomes whatever value is saved. -/
def Ty.Restores {α : Type} (t : Ty α) (y : α) : Prop :=
  t.Wf ∧ t.Exact ∧ t.Blank y ∧ ∀ x, t.Carried x

theorem Ty.saveLoadF_eq {α : Type} {t : Ty α} (wf : t.Wf) (exact : t.Exact) {y x : α}
    (blank : t.Blank y) (carried : t.Carried x) : t.saveLoadF p y x = x := by
  by_cases left : t.Omitted x
  · rw [Ty.saveLoadF_of_omitted wf y left]
    exact t.eq_of_agree exact (t.agree_of_blank blank left)
  · rw [Ty.saveLoadF_of_not_omitted wf y left]
    exact t.eq_of_agree exact (t.agree_saveLoad p wf (t.restorable_of_blank blank carried))

theorem Ty.Restores.saveLoadF_eq {α : Type} {t : Ty α} {y : α} (restores : t.Restores y) (x : α) :
    t.saveLoadF p y x = x := by
  obtain ⟨wf, exact, blank, carried⟩ := restores
  exact Ty.saveLoadF_eq p wf exact blank (carried x)

theorem Clauses.restores_struct {S : Type} {c : Clauses S} (wf : c.Wf) (plain : c.Plain)
    (exact : c.Exact ∧ ∀ x y, c.SameMembers x y ↔ x = y) {y : S} (blank : c.Blank y) :
    (Ty.struct c).Restores y := by
  rw [Ty.Restores, Ty.Wf, Ty.Exact, Ty.Blank]
  refine ⟨wf, ⟨exact.1, fun x y same => (exact.2 x y).mp same⟩, blank, ?_⟩
  intro x
  rw [Ty.Carried]
  exact carried_of_plain plain x

theorem Clauses.loadJson_toJson_eq {S : Type} {c : Clauses S} (wf : c.Wf)
    (exact : (Ty.struct c).Exact) {y x : S} (blank : c.Blank y) (carried : c.Carried x) :
    c.loadJson p (some (.object (c.toJson p x))) y = x := by
  have agree := c.agree_of_reloaded p wf (Clauses.reloaded p wf y x)
    (c.restorable_of_blank blank carried)
  apply (Ty.struct c).eq_of_agree exact
  rw [Ty.Agree]
  exact agree

theorem Ty.Restores.loadJson_eq {S : Type} {c : Clauses S} {y : S}
    (restores : (Ty.struct c).Restores y) (x : S) :
    c.loadJson p (some (.object (c.toJson p x))) y = x := by
  obtain ⟨wf, exact, blank, carried⟩ := restores
  rw [Ty.Wf] at wf
  rw [Ty.Blank] at blank
  have whole := carried x
  rw [Ty.Carried] at whole
  exact Clauses.loadJson_toJson_eq p wf exact blank whole

theorem Ty.saveLoadF_list {α : Type} {t : Ty α} {fresh : α} (wf : (Ty.list t fresh).Wf)
    (xs : List α) : (Ty.list t fresh).saveLoadF p [] xs = xs.map (t.saveLoad p fresh) := by
  by_cases left : (Ty.list t fresh).Omitted xs
  · rw [Ty.saveLoadF_of_omitted wf _ left]
    rw [Ty.Omitted] at left
    rw [left, List.map_nil]
  · rw [Ty.saveLoadF_of_not_omitted wf _ left, Ty.saveLoad_list]

end QvPlugin.Utils
