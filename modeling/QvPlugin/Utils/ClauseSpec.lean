import Mathlib.Data.Finset.Image
import QvPlugin.Utils.JsonConversion

set_option autoImplicit false
set_option relaxedAutoImplicit false

namespace QvPlugin.Utils

open Lib Qt Common

theorem Bindable.isDefault_iff {α : Type} [DecidableEq α] {defaultvalue : α}
    (b : Bindable defaultvalue) : b.isDefault = true ↔ b.value = defaultvalue := by
  rw [Bindable.isDefault, decide_eq_true_eq]

def Clauses.keys : {S : Type} → Clauses S → List QString
  | _, .nil => []
  | _, .F name _ _ rest => name :: rest.keys
  | _, @Clauses.P _ _ _ name _ _ _ rest => name :: rest.keys
  | _, .B _ clauses rest => clauses.keys ++ rest.keys

/-- The member shares no storage with any member or base that the clauses list. -/
def Clauses.Apart : {S γ : Type} → Clauses S → Lens S γ → Prop
  | _, _, .nil, _ => True
  | _, _, .F _ member _ rest, l => l.Apart member ∧ rest.Apart l
  | _, _, @Clauses.P _ _ _ _ _ member _ rest, l => l.Apart member ∧ rest.Apart l
  | _, _, .B base _ rest, l => l.Apart base ∧ rest.Apart l

def Clauses.SameMembers : {S : Type} → Clauses S → S → S → Prop
  | _, .nil, _, _ => True
  | _, .F _ member _ rest, x, y => member.get x = member.get y ∧ rest.SameMembers x y
  | _, @Clauses.P _ _ _ _ _ member _ rest, x, y =>
      (member.get x).value = (member.get y).value ∧ rest.SameMembers x y
  | _, .B base _ rest, x, y => base.get x = base.get y ∧ rest.SameMembers x y

mutual

def Ty.Exact : {α : Type} → Ty α → Prop
  | _, .leaf _ => True
  | _, .list t _ => t.Exact
  | _, @Ty.set _ _ _ _ => True
  | _, .map t _ => t.Exact
  | _, .struct c => c.Exact ∧ ∀ x y, c.SameMembers x y → x = y

def Clauses.Exact : {S : Type} → Clauses S → Prop
  | _, .nil => True
  | _, .F _ _ t rest => t.Exact ∧ rest.Exact
  | _, @Clauses.P _ _ _ _ _ _ t rest => t.Exact ∧ rest.Exact
  | _, .B _ clauses rest =>
      (clauses.Exact ∧ ∀ x y, clauses.SameMembers x y → x = y) ∧ rest.Exact

end

mutual

def Ty.AtDefaults : {α : Type} → Ty α → α → Prop
  | _, .leaf _, _ => True
  | _, .list _ _, _ => True
  | _, @Ty.set _ _ _ _, _ => True
  | _, .map _ _, _ => True
  | _, .struct c, s => c.AtDefaults s

def Clauses.AtDefaults : {S : Type} → Clauses S → S → Prop
  | _, .nil, _ => True
  | _, .F _ member t rest, s => t.AtDefaults (member.get s) ∧ rest.AtDefaults s
  | _, @Clauses.P _ _ _ _ defaultvalue member t rest, s =>
      ((member.get s).value = defaultvalue ∧ t.AtDefaults defaultvalue) ∧ rest.AtDefaults s
  | _, .B base clauses rest, s => clauses.AtDefaults (base.get s) ∧ rest.AtDefaults s

end

mutual

/-- Only `F` and `B` clauses, at every depth. -/
def Ty.OnlyFB : {α : Type} → Ty α → Prop
  | _, .leaf _ => True
  | _, .list t _ => t.OnlyFB
  | _, @Ty.set _ _ t _ => t.OnlyFB
  | _, .map t _ => t.OnlyFB
  | _, .struct c => c.OnlyFB

def Clauses.OnlyFB : {S : Type} → Clauses S → Prop
  | _, .nil => True
  | _, .F _ _ t rest => t.OnlyFB ∧ rest.OnlyFB
  | _, @Clauses.P _ _ _ _ _ _ _ _ => False
  | _, .B _ clauses rest => clauses.OnlyFB ∧ rest.OnlyFB

end

mutual

theorem Ty.atDefaults_of_onlyFB : {α : Type} → {t : Ty α} → t.OnlyFB → (x : α) → t.AtDefaults x
  | _, .leaf _, _, _ => by rw [Ty.AtDefaults]; trivial
  | _, .list _ _, _, _ => by rw [Ty.AtDefaults]; trivial
  | _, @Ty.set _ _ _ _, _, _ => by rw [Ty.AtDefaults]; trivial
  | _, .map _ _, _, _ => by rw [Ty.AtDefaults]; trivial
  | _, .struct c, only, x => by
      rw [Ty.OnlyFB] at only
      rw [Ty.AtDefaults]
      exact Clauses.atDefaults_of_onlyFB only x

theorem Clauses.atDefaults_of_onlyFB : {S : Type} → {c : Clauses S} → c.OnlyFB → (x : S) →
    c.AtDefaults x
  | _, .nil, _, _ => by rw [Clauses.AtDefaults]; trivial
  | _, .F _ member t rest, only, x => by
      rw [Clauses.OnlyFB] at only
      rw [Clauses.AtDefaults]
      exact ⟨Ty.atDefaults_of_onlyFB only.1 _, Clauses.atDefaults_of_onlyFB only.2 x⟩
  | _, @Clauses.P _ _ _ _ _ _ _ _, only, _ => by
      rw [Clauses.OnlyFB] at only
      exact only.elim
  | _, .B base clauses rest, only, x => by
      rw [Clauses.OnlyFB] at only
      rw [Clauses.AtDefaults]
      exact ⟨Clauses.atDefaults_of_onlyFB only.1 _, Clauses.atDefaults_of_onlyFB only.2 x⟩

end

mutual

/-- The JSON keys are pairwise distinct across the struct and its bases, and the members are
separate, at every depth. Default construction of an element leaves each `Bindable` in it at
its default. What a `QSet` stores is compared by `==`, which sees every data member. -/
def Ty.Wf : {α : Type} → Ty α → Prop
  | _, .leaf _ => True
  | _, .list t fresh => t.Wf ∧ t.AtDefaults fresh
  | _, @Ty.set _ _ t fresh => t.Wf ∧ t.AtDefaults fresh ∧ t.Exact
  | _, .map t fresh => t.Wf ∧ t.AtDefaults fresh
  | _, .struct c => c.Wf

def Clauses.Wf : {S : Type} → Clauses S → Prop
  | _, .nil => True
  | _, .F name member t rest => t.Wf ∧ name ∉ rest.keys ∧ rest.Apart member ∧ rest.Wf
  | _, @Clauses.P _ _ _ name _ member t rest =>
      t.Wf ∧ name ∉ rest.keys ∧ rest.Apart member ∧ rest.Wf
  | _, .B base clauses rest =>
      clauses.Wf ∧ (∀ k ∈ clauses.keys, k ∉ rest.keys) ∧ rest.Apart base ∧ rest.Wf

end

mutual

/-- Equal on every listed member and every base's listed member, at every depth. -/
def Ty.Agree : {α : Type} → Ty α → α → α → Prop
  | _, .leaf _, x, y => x = y
  | _, .list t _, xs, ys => List.Forall₂ t.Agree xs ys
  | _, @Ty.set _ _ _ _, s, s' => s = s'
  | _, .map t _, m, m' => ∀ k, Option.Rel t.Agree (m.lookup k) (m'.lookup k)
  | _, .struct c, x, y => c.Agree x y

def Clauses.Agree : {S : Type} → Clauses S → S → S → Prop
  | _, .nil, _, _ => True
  | _, .F _ member t rest, x, y => t.Agree (member.get x) (member.get y) ∧ rest.Agree x y
  | _, @Clauses.P _ _ _ _ _ member t rest, x, y =>
      t.Agree (member.get x).value (member.get y).value ∧ rest.Agree x y
  | _, .B base clauses rest, x, y => clauses.Agree (base.get x) (base.get y) ∧ rest.Agree x y

end

/-- The raw objects are the only leaves that `__TOJSON_F` can leave out. -/
def Leaf.Omitted : {α : Type} → Leaf α → α → Prop
  | _, .object, o => o = ∅
  | _, .safeJson _, t => t.raw = ∅
  | _, _, _ => False

mutual

/-- The values whose serialisation is an empty array or an empty object. -/
def Ty.Omitted : {α : Type} → Ty α → α → Prop
  | _, .leaf k, x => k.Omitted x
  | _, .list _ _, xs => xs = []
  | _, @Ty.set _ _ _ _, s => s = ∅
  | _, .map _ _, m => m = ∅
  | _, .struct c, s => c.Omitted s

def Clauses.Omitted : {S : Type} → Clauses S → S → Prop
  | _, .nil, _ => True
  | _, .F _ member t rest, s => t.Omitted (member.get s) ∧ rest.Omitted s
  | _, @Clauses.P _ _ _ _ _ member t rest, s =>
      ((member.get s).isDefault = true ∨ t.Omitted (member.get s).value) ∧ rest.Omitted s
  | _, .B base clauses rest, s => clauses.Omitted (base.get s) ∧ rest.Omitted s

end

section Agree

mutual

theorem Ty.agree_refl : {α : Type} → (t : Ty α) → (x : α) → t.Agree x x
  | _, .leaf _, _ => by rw [Ty.Agree]
  | _, .list t _, xs => by
      rw [Ty.Agree, List.forall₂_same]
      exact fun x _ => t.agree_refl x
  | _, @Ty.set _ _ _ _, _ => by rw [Ty.Agree]
  | _, .map t _, m => by
      rw [Ty.Agree]
      intro k
      cases m.lookup k with
      | none => exact .none
      | some x => exact .some (t.agree_refl x)
  | _, .struct c, x => by
      rw [Ty.Agree]
      exact c.agree_refl x

theorem Clauses.agree_refl : {S : Type} → (c : Clauses S) → (x : S) → c.Agree x x
  | _, .nil, _ => by rw [Clauses.Agree]; trivial
  | _, .F _ member t rest, x => by
      rw [Clauses.Agree]
      exact ⟨t.agree_refl _, rest.agree_refl x⟩
  | _, @Clauses.P _ _ _ _ _ member t rest, x => by
      rw [Clauses.Agree]
      exact ⟨t.agree_refl _, rest.agree_refl x⟩
  | _, .B base clauses rest, x => by
      rw [Clauses.Agree]
      exact ⟨clauses.agree_refl _, rest.agree_refl x⟩

theorem Ty.agree_symm : {α : Type} → (t : Ty α) → {x y : α} → t.Agree x y → t.Agree y x
  | _, .leaf _, x, y, same => by
      rw [Ty.Agree] at same ⊢
      exact same.symm
  | _, .list t _, xs, ys, same => by
      rw [Ty.Agree] at same ⊢
      exact (same.imp fun _ _ h => t.agree_symm h).flip
  | _, @Ty.set _ _ _ _, s, s', same => by
      rw [Ty.Agree] at same ⊢
      exact same.symm
  | _, .map t _, m, m', same => by
      rw [Ty.Agree] at same ⊢
      intro k
      have here := same k
      generalize m.lookup k = v, m'.lookup k = v' at here ⊢
      cases here with
      | none => exact .none
      | some h => exact .some (t.agree_symm h)
  | _, .struct c, x, y, same => by
      rw [Ty.Agree] at same ⊢
      exact c.agree_symm same

theorem Clauses.agree_symm : {S : Type} → (c : Clauses S) → {x y : S} → c.Agree x y → c.Agree y x
  | _, .nil, _, _, _ => by rw [Clauses.Agree]; trivial
  | _, .F _ member t rest, x, y, same => by
      rw [Clauses.Agree] at same ⊢
      exact ⟨t.agree_symm same.1, rest.agree_symm same.2⟩
  | _, @Clauses.P _ _ _ _ _ member t rest, x, y, same => by
      rw [Clauses.Agree] at same ⊢
      exact ⟨t.agree_symm same.1, rest.agree_symm same.2⟩
  | _, .B base clauses rest, x, y, same => by
      rw [Clauses.Agree] at same ⊢
      exact ⟨clauses.agree_symm same.1, rest.agree_symm same.2⟩

end

private theorem forall₂_trans {α : Type} {R : α → α → Prop}
    (trans : ∀ x y z, R x y → R y z → R x z) {xs ys zs : List α}
    (first : List.Forall₂ R xs ys) (second : List.Forall₂ R ys zs) : List.Forall₂ R xs zs := by
  induction first generalizing zs with
  | nil =>
      cases second
      exact .nil
  | cons head _ ih =>
      cases second with
      | cons head' tail' => exact .cons (trans _ _ _ head head') (ih tail')

mutual

theorem Ty.agree_trans : {α : Type} → (t : Ty α) → {x y z : α} →
    t.Agree x y → t.Agree y z → t.Agree x z
  | _, .leaf _, _, _, _, first, second => by
      rw [Ty.Agree] at first second ⊢
      exact first.trans second
  | _, .list t _, _, _, _, first, second => by
      rw [Ty.Agree] at first second ⊢
      have trans : ∀ x y z, t.Agree x y → t.Agree y z → t.Agree x z :=
        fun _ _ _ h h' => t.agree_trans h h'
      exact forall₂_trans trans first second
  | _, @Ty.set _ _ _ _, _, _, _, first, second => by
      rw [Ty.Agree] at first second ⊢
      exact first.trans second
  | _, .map t _, m, m', m'', first, second => by
      rw [Ty.Agree] at first second ⊢
      intro k
      have left := first k
      have right := second k
      generalize m.lookup k = v, m'.lookup k = v', m''.lookup k = v'' at left right ⊢
      cases left with
      | none => exact right
      | some h =>
          cases right with
          | some h' => exact .some (t.agree_trans h h')
  | _, .struct c, _, _, _, first, second => by
      rw [Ty.Agree] at first second ⊢
      exact c.agree_trans first second

theorem Clauses.agree_trans : {S : Type} → (c : Clauses S) → {x y z : S} →
    c.Agree x y → c.Agree y z → c.Agree x z
  | _, .nil, _, _, _, _, _ => by rw [Clauses.Agree]; trivial
  | _, .F _ member t rest, _, _, _, first, second => by
      rw [Clauses.Agree] at first second ⊢
      exact ⟨t.agree_trans first.1 second.1, rest.agree_trans first.2 second.2⟩
  | _, @Clauses.P _ _ _ _ _ member t rest, _, _, _, first, second => by
      rw [Clauses.Agree] at first second ⊢
      exact ⟨t.agree_trans first.1 second.1, rest.agree_trans first.2 second.2⟩
  | _, .B base clauses rest, _, _, _, first, second => by
      rw [Clauses.Agree] at first second ⊢
      exact ⟨clauses.agree_trans first.1 second.1, rest.agree_trans first.2 second.2⟩

end

private theorem eq_of_forall₂ {α : Type} {R : α → α → Prop} (eq : ∀ x y, R x y → x = y)
    {xs ys : List α} (same : List.Forall₂ R xs ys) : xs = ys := by
  rw [← List.forall₂_eq_eq_eq]
  exact same.imp eq

mutual

theorem Ty.eq_of_agree : {α : Type} → (t : Ty α) → t.Exact → {x y : α} → t.Agree x y → x = y
  | _, .leaf _, _, _, _, same => by rwa [Ty.Agree] at same
  | _, .list t _, exact, _, _, same => by
      rw [Ty.Exact] at exact
      rw [Ty.Agree] at same
      exact eq_of_forall₂ (fun _ _ => t.eq_of_agree exact) same
  | _, @Ty.set _ _ _ _, _, _, _, same => by rwa [Ty.Agree] at same
  | _, .map t _, exact, m, m', same => by
      rw [Ty.Exact] at exact
      rw [Ty.Agree] at same
      ext1 k
      have here := same k
      generalize m.lookup k = v, m'.lookup k = v' at here ⊢
      cases here with
      | none => rfl
      | some h => rw [t.eq_of_agree exact h]
  | _, .struct c, exact, x, y, same => by
      rw [Ty.Exact] at exact
      rw [Ty.Agree] at same
      exact exact.2 x y (c.sameMembers_of_agree exact.1 same)

theorem Clauses.sameMembers_of_agree : {S : Type} → (c : Clauses S) → c.Exact → {x y : S} →
    c.Agree x y → c.SameMembers x y
  | _, .nil, _, _, _, _ => by rw [Clauses.SameMembers]; trivial
  | _, .F _ member t rest, exact, x, y, same => by
      rw [Clauses.Exact] at exact
      rw [Clauses.Agree] at same
      rw [Clauses.SameMembers]
      exact ⟨t.eq_of_agree exact.1 same.1, rest.sameMembers_of_agree exact.2 same.2⟩
  | _, @Clauses.P _ _ _ _ _ member t rest, exact, x, y, same => by
      rw [Clauses.Exact] at exact
      rw [Clauses.Agree] at same
      rw [Clauses.SameMembers]
      exact ⟨t.eq_of_agree exact.1 same.1, rest.sameMembers_of_agree exact.2 same.2⟩
  | _, .B base clauses rest, exact, x, y, same => by
      rw [Clauses.Exact] at exact
      rw [Clauses.Agree] at same
      rw [Clauses.SameMembers]
      exact ⟨exact.1.2 _ _ (clauses.sameMembers_of_agree exact.1.1 same.1),
        rest.sameMembers_of_agree exact.2 same.2⟩

end

end Agree

end QvPlugin.Utils
