import QvPlugin.Utils.RoundTrip

/-!
`Restorable` is also necessary. Only a set makes this hard: it could come back with its
elements exchanged. Saving and loading has no such cycle, because a member that is left out is
reset to what a fresh element holds and stays there.
-/

set_option autoImplicit false
set_option relaxedAutoImplicit false

namespace QvPlugin.Utils

open Lib Qt Common

variable (p : Platform)

/-- What makes the reset below work: the schema is well formed, its values are carried as they are,
and what is reset to is at the defaults. -/
structure Ty.Resets {α : Type} (t : Ty α) (y : α) : Prop where
  wf : t.Wf
  plain : t.Plain
  exact : t.Exact
  defaults : t.AtDefaults y

structure Clauses.Resets {S : Type} (c : Clauses S) (y : S) : Prop where
  wf : c.Wf
  plain : c.Plain
  exact : c.Exact
  defaults : c.AtDefaults y

section Inversion

theorem Ty.Resets.of_list {α : Type} {t : Ty α} {fresh : α} {ys : List α}
    (resets : (Ty.list t fresh).Resets ys) : t.Resets fresh := by
  obtain ⟨wf, plain, exact, -⟩ := resets
  rw [Ty.Wf] at wf
  rw [Ty.Plain] at plain
  rw [Ty.Exact] at exact
  exact ⟨wf.1, plain, exact, wf.2⟩

theorem Ty.Resets.of_set {α : Type} [DecidableEq α] {t : Ty α} {fresh : α} {s : Finset α}
    (resets : (Ty.set t fresh).Resets s) : t.Resets fresh := by
  obtain ⟨wf, plain, -, -⟩ := resets
  rw [Ty.Wf] at wf
  rw [Ty.Plain] at plain
  exact ⟨wf.1, plain, wf.2.2, wf.2.1⟩

theorem Ty.Resets.of_struct {S : Type} {c : Clauses S} {y : S} (resets : (Ty.struct c).Resets y) :
    c.Resets y ∧ ∀ x z, c.SameMembers x z → x = z := by
  obtain ⟨wf, plain, exact, defaults⟩ := resets
  rw [Ty.Wf] at wf
  rw [Ty.Plain] at plain
  rw [Ty.Exact] at exact
  rw [Ty.AtDefaults] at defaults
  exact ⟨⟨wf, plain, exact.1, defaults⟩, exact.2⟩

theorem Clauses.Resets.of_F {S α : Type} {name : QString} {member : Lens S α} {t : Ty α}
    {rest : Clauses S} {y : S} (resets : (Clauses.F name member t rest).Resets y) :
    t.Resets (member.get y) ∧ rest.Resets y := by
  obtain ⟨wf, plain, exact, defaults⟩ := resets
  rw [Clauses.Wf] at wf
  rw [Clauses.Plain] at plain
  rw [Clauses.Exact] at exact
  rw [Clauses.AtDefaults] at defaults
  obtain ⟨wfT, -, -, wfRest⟩ := wf
  exact ⟨⟨wfT, plain.1, exact.1, defaults.1⟩, ⟨wfRest, plain.2, exact.2, defaults.2⟩⟩

theorem Clauses.Resets.of_P {S α : Type} [DecidableEq α] {name : QString} {defaultvalue : α}
    {member : Lens S (Bindable defaultvalue)} {t : Ty α} {rest : Clauses S} {y : S}
    (resets : (Clauses.P name member t rest).Resets y) :
    (member.get y).value = defaultvalue ∧ t.Resets defaultvalue ∧ rest.Resets y := by
  obtain ⟨wf, plain, exact, defaults⟩ := resets
  rw [Clauses.Wf] at wf
  rw [Clauses.Plain] at plain
  rw [Clauses.Exact] at exact
  rw [Clauses.AtDefaults] at defaults
  obtain ⟨wfT, -, -, wfRest⟩ := wf
  exact ⟨defaults.1.1, ⟨wfT, plain.1, exact.1, defaults.1.2⟩,
    ⟨wfRest, plain.2, exact.2, defaults.2⟩⟩

theorem Clauses.Resets.of_B {S β : Type} {base : Lens S β} {clauses : Clauses β}
    {rest : Clauses S} {y : S} (resets : (Clauses.B base clauses rest).Resets y) :
    (clauses.Resets (base.get y) ∧ ∀ x z, clauses.SameMembers x z → x = z) ∧ rest.Resets y := by
  obtain ⟨wf, plain, exact, defaults⟩ := resets
  rw [Clauses.Wf] at wf
  rw [Clauses.Plain] at plain
  rw [Clauses.Exact] at exact
  rw [Clauses.AtDefaults] at defaults
  obtain ⟨wfBase, -, -, wfRest⟩ := wf
  exact ⟨⟨⟨wfBase, plain.1, exact.1.1, defaults.1⟩, exact.1.2⟩,
    ⟨wfRest, plain.2, exact.2, defaults.2⟩⟩

end Inversion

section Reset

mutual

theorem Ty.saveLoad_eq_of_omitted : {α : Type} → (t : Ty α) → {y x : α} → t.Resets y →
    ¬t.Omitted x → t.Omitted (t.saveLoad p y x) → t.saveLoad p y x = y
  | _, .leaf k, y, x, resets, written, left => by
      have plain := resets.plain
      rw [Ty.Plain] at plain
      rw [Ty.saveLoad_leaf p k y (Leaf.carried_of_plain plain x)] at left
      exact absurd left written
  | _, .list t fresh, ys, xs, _, written, left => by
      rw [Ty.Omitted, Ty.saveLoad_list, List.map_eq_nil_iff] at left
      rw [Ty.Omitted] at written
      exact absurd left written
  | _, @Ty.set _ _ t fresh, s', s, _, written, left => by
      rw [Ty.Omitted, Ty.saveLoad_set, Finset.image_eq_empty] at left
      rw [Ty.Omitted] at written
      exact absurd left written
  | _, .map t fresh, _, _, resets, _, _ => by
      have plain := resets.plain
      rw [Ty.Plain] at plain
      exact False.elim plain
  | _, .struct c, y, x, resets, _, left => by
      obtain ⟨inner, exact⟩ := resets.of_struct
      rw [Ty.Omitted, Ty.saveLoad_struct] at left
      rw [Ty.saveLoad_struct]
      have same := c.sameMembers_of_omitted inner (Clauses.reloaded p inner.wf y x) left
      exact exact _ _ same

theorem Clauses.sameMembers_of_omitted : {S : Type} → (c : Clauses S) → {y x z : S} →
    c.Resets y → c.Reloaded p y x z → c.Omitted z → c.SameMembers z y
  | _, .nil, _, _, _, _, _, _ => by rw [Clauses.SameMembers]; trivial
  | _, .F name member t rest, y, x, z, resets, reloaded, left => by
      obtain ⟨own, others⟩ := resets.of_F
      rw [Clauses.Reloaded] at reloaded
      rw [Clauses.Omitted] at left
      have tail := rest.sameMembers_of_omitted others reloaded.2 left.2
      rw [Clauses.SameMembers]
      refine ⟨?_, tail⟩
      have head := left.1
      rw [reloaded.1] at head ⊢
      by_cases h : t.Omitted (member.get x)
      · rw [Ty.saveLoadF_of_omitted own.wf _ h]
      · rw [Ty.saveLoadF_of_not_omitted own.wf _ h] at head ⊢
        exact t.saveLoad_eq_of_omitted own h head
  | _, @Clauses.P _ _ _ name defaultvalue member t rest, y, x, z, resets, reloaded, left => by
      obtain ⟨held, own, others⟩ := resets.of_P
      rw [Clauses.Reloaded] at reloaded
      rw [Clauses.Omitted, Bindable.isDefault_iff] at left
      have tail := rest.sameMembers_of_omitted others reloaded.2 left.2
      rw [Clauses.SameMembers]
      refine ⟨?_, tail⟩
      rcases left.1 with default | head
      · rw [default, held]
      · rw [reloaded.1, Ty.saveLoadP] at head ⊢
        split_ifs at head ⊢ with default
        · rfl
        · by_cases h : t.Omitted (member.get x).value
          · rw [Ty.saveLoadF_of_omitted own.wf _ h]
          · rw [held] at head ⊢
            rw [Ty.saveLoadF_of_not_omitted own.wf _ h] at head ⊢
            exact t.saveLoad_eq_of_omitted own h head
  | _, .B base clauses rest, y, x, z, resets, reloaded, left => by
      obtain ⟨⟨inner, exact⟩, others⟩ := resets.of_B
      rw [Clauses.Reloaded] at reloaded
      rw [Clauses.Omitted] at left
      have tail := rest.sameMembers_of_omitted others reloaded.2 left.2
      rw [Clauses.SameMembers]
      refine ⟨?_, tail⟩
      have head := left.1
      rw [reloaded.1] at head ⊢
      exact exact _ _ (clauses.sameMembers_of_omitted inner (Clauses.reloaded p inner.wf _ _) head)

end

variable {p}

private theorem fixesPeriodic_saveLoadF {α : Type} {t : Ty α} {y : α} (resets : t.Resets y)
    (fixes : FixesPeriodic (t.saveLoad p y)) : FixesPeriodic (t.saveLoadF p y) :=
  fixes.reset (fun _ h => Ty.saveLoadF_of_omitted resets.wf y h)
    (fun _ h => Ty.saveLoadF_of_not_omitted resets.wf y h)
    (fun _ h left => t.saveLoad_eq_of_omitted p resets h left)

private theorem fixesPeriodic_saveLoadP {α : Type} [DecidableEq α] {t : Ty α} (defaultvalue : α)
    (fixes : FixesPeriodic (t.saveLoadF p defaultvalue)) :
    FixesPeriodic (t.saveLoadP p defaultvalue defaultvalue) :=
  fixes.reset (fun _ h => if_pos h) (fun _ h => if_neg h) (fun _ _ left => left)

end Reset

section Cycle

private theorem get_mem_periodicPts {S α : Type} {l : Lens S α} {f : S → S} {g : α → α}
    (follows : ∀ x, l.get (f x) = g (l.get x)) {x : S} (periodic : x ∈ Function.periodicPts f) :
    l.get x ∈ Function.periodicPts g :=
  Function.Semiconj.mapsTo_periodicPts follows periodic

mutual

/-- Saving and loading into a fresh target has no cycle but values that come back at once. -/
theorem Ty.fixesPeriodic_saveLoad : {α : Type} → (t : Ty α) → {y : α} → t.Resets y →
    FixesPeriodic (t.saveLoad p y)
  | _, .leaf k, y, resets => by
      intro x _
      have plain := resets.plain
      rw [Ty.Plain] at plain
      exact Ty.saveLoad_leaf p k y (Leaf.carried_of_plain plain x)
  | _, .list t fresh, ys, resets => by
      have mapped : (Ty.list t fresh).saveLoad p ys = List.map (t.saveLoad p fresh) := by
        funext xs
        exact Ty.saveLoad_list p t fresh ys xs
      rw [mapped]
      exact (t.fixesPeriodic_saveLoad resets.of_list).map
  | _, @Ty.set _ _ t fresh, s', resets => by
      have mapped : (Ty.set t fresh).saveLoad p s' = Finset.image (t.saveLoad p fresh) := by
        funext s
        exact Ty.saveLoad_set p t fresh s' s
      rw [mapped]
      exact (t.fixesPeriodic_saveLoad resets.of_set).image
  | _, .map _ _, _, resets => by
      have plain := resets.plain
      rw [Ty.Plain] at plain
      exact False.elim plain
  | _, .struct c, y, resets => by
      obtain ⟨inner, exact⟩ := resets.of_struct
      intro x periodic
      have reloaded : ∀ x, c.Reloaded p y x ((Ty.struct c).saveLoad p y x) := by
        intro x
        rw [Ty.saveLoad_struct]
        exact Clauses.reloaded p inner.wf y x
      exact exact _ _ (c.sameMembers_of_periodic inner reloaded periodic)

theorem Clauses.sameMembers_of_periodic : {S : Type} → (c : Clauses S) → {y : S} → c.Resets y →
    {f : S → S} → (∀ x, c.Reloaded p y x (f x)) → {x : S} → x ∈ Function.periodicPts f →
    c.SameMembers (f x) x
  | _, .nil, _, _, _, _, _, _ => by rw [Clauses.SameMembers]; trivial
  | _, .F name member t rest, y, resets, f, reloaded, x, periodic => by
      obtain ⟨own, others⟩ := resets.of_F
      simp only [Clauses.Reloaded] at reloaded
      have fixes := fixesPeriodic_saveLoadF own (t.fixesPeriodic_saveLoad own)
      have head := fixes _ (get_mem_periodicPts (fun x => (reloaded x).1) periodic)
      rw [Clauses.SameMembers, (reloaded x).1]
      exact ⟨head, rest.sameMembers_of_periodic others (fun x => (reloaded x).2) periodic⟩
  | _, @Clauses.P S α _ name defaultvalue member t rest, y, resets, f, reloaded, x, periodic => by
      obtain ⟨held, own, others⟩ := resets.of_P
      simp only [Clauses.Reloaded, held] at reloaded
      have fixes := fixesPeriodic_saveLoadP defaultvalue
        (fixesPeriodic_saveLoadF own (t.fixesPeriodic_saveLoad own))
      have follows : Function.Semiconj (fun x => (member.get x).value) f
          (t.saveLoadP p defaultvalue defaultvalue) := fun x => (reloaded x).1
      have head := fixes _ (follows.mapsTo_periodicPts periodic)
      rw [Clauses.SameMembers, (reloaded x).1]
      exact ⟨head, rest.sameMembers_of_periodic others (fun x => (reloaded x).2) periodic⟩
  | _, .B base clauses rest, y, resets, f, reloaded, x, periodic => by
      obtain ⟨⟨inner, exact⟩, others⟩ := resets.of_B
      simp only [Clauses.Reloaded] at reloaded
      have head := clauses.sameMembers_of_periodic inner (Clauses.reloaded p inner.wf (base.get y))
        (get_mem_periodicPts (fun x => (reloaded x).1) periodic)
      rw [Clauses.SameMembers, (reloaded x).1]
      exact ⟨exact _ _ head, rest.sameMembers_of_periodic others (fun x => (reloaded x).2) periodic⟩

end

end Cycle

section Necessary

mutual

theorem Ty.restorable_of_agree : {α : Type} → (t : Ty α) → t.Wf → t.Plain → {y x : α} →
    t.Agree (t.saveLoad p y x) x → t.Restorable y x
  | _, .leaf k, _, plain, _, x, _ => by
      rw [Ty.Plain] at plain
      rw [Ty.Restorable]
      exact Leaf.carried_of_plain plain x
  | _, .list t fresh, wf, plain, ys, xs, same => by
      rw [Ty.Wf] at wf
      rw [Ty.Plain] at plain
      rw [Ty.Agree, Ty.saveLoad_list, List.forall₂_map_left_iff, List.forall₂_same] at same
      rw [Ty.Restorable]
      intro x hx
      exact t.restorable_of_agree wf.1 plain (same x hx)
  | _, @Ty.set _ _ t fresh, wf, plain, s', s, same => by
      rw [Ty.Wf] at wf
      rw [Ty.Plain] at plain
      rw [Ty.Agree, Ty.saveLoad_set] at same
      have resets : t.Resets fresh := ⟨wf.1, plain, wf.2.2, wf.2.1⟩
      have fixes : FixesPeriodic (t.saveLoad p fresh) := t.fixesPeriodic_saveLoad p resets
      rw [Ty.Restorable]
      intro x hx
      have back : t.saveLoad p fresh x = x := fixes.eq_of_image_eq same x hx
      have agrees : t.Agree (t.saveLoad p fresh x) x := by
        rw [back]
        exact t.agree_refl x
      exact t.restorable_of_agree wf.1 plain agrees
  | _, .map _ _, _, plain, _, _, _ => by
      rw [Ty.Plain] at plain
      exact False.elim plain
  | _, .struct c, wf, plain, y, x, same => by
      rw [Ty.Wf] at wf
      rw [Ty.Plain] at plain
      rw [Ty.Agree, Ty.saveLoad_struct] at same
      rw [Ty.Restorable]
      exact c.restorable_of_reloaded wf plain (Clauses.reloaded p wf y x) same

theorem Clauses.restorable_of_reloaded : {S : Type} → (c : Clauses S) → c.Wf → c.Plain →
    {y x z : S} → c.Reloaded p y x z → c.Agree z x → c.Restorable y x
  | _, .nil, _, _, _, _, _, _, _ => by rw [Clauses.Restorable]; trivial
  | _, .F name member t rest, wf, plain, y, x, z, reloaded, same => by
      rw [Clauses.Wf] at wf
      rw [Clauses.Plain] at plain
      rw [Clauses.Reloaded] at reloaded
      rw [Clauses.Agree, reloaded.1] at same
      obtain ⟨wfT, -, -, wfRest⟩ := wf
      rw [Clauses.Restorable]
      refine ⟨⟨fun h => ?_, fun h => ?_⟩,
        rest.restorable_of_reloaded wfRest plain.2 reloaded.2 same.2⟩
      · rw [Ty.saveLoadF_of_omitted wfT _ h] at same
        exact same.1
      · rw [Ty.saveLoadF_of_not_omitted wfT _ h] at same
        exact t.restorable_of_agree wfT plain.1 same.1
  | _, @Clauses.P _ _ _ name defaultvalue member t rest, wf, plain, y, x, z, reloaded, same => by
      rw [Clauses.Wf] at wf
      rw [Clauses.Plain] at plain
      rw [Clauses.Reloaded] at reloaded
      rw [Clauses.Agree, reloaded.1, Ty.saveLoadP] at same
      obtain ⟨wfT, -, -, wfRest⟩ := wf
      rw [Clauses.Restorable, Bindable.isDefault_iff]
      refine ⟨⟨fun h => ?_, fun h => ?_⟩,
        rest.restorable_of_reloaded wfRest plain.2 reloaded.2 same.2⟩
      · split_ifs at same with default
        · exact same.1
        · rw [Ty.saveLoadF_of_omitted wfT _ (h.resolve_left default)] at same
          exact same.1
      · rw [not_or] at h
        rw [if_neg h.1, Ty.saveLoadF_of_not_omitted wfT _ h.2] at same
        exact t.restorable_of_agree wfT plain.1 same.1
  | _, .B base clauses rest, wf, plain, y, x, z, reloaded, same => by
      rw [Clauses.Wf] at wf
      rw [Clauses.Plain] at plain
      rw [Clauses.Reloaded] at reloaded
      rw [Clauses.Agree, reloaded.1] at same
      obtain ⟨wfBase, -, -, wfRest⟩ := wf
      rw [Clauses.Restorable]
      exact ⟨clauses.restorable_of_reloaded wfBase plain.1 (Clauses.reloaded p wfBase _ _) same.1,
        rest.restorable_of_reloaded wfRest plain.2 reloaded.2 same.2⟩

end

end Necessary

/-- Loading `x.toJson()` into a fresh instance gives `x` back exactly when each member that
`toJson` leaves out is held by the fresh instance already, at every depth. -/
theorem loadJson_toJson_agree_iff {S : Type} (c : Clauses S) (wf : c.Wf) (plain : c.Plain)
    (fresh x : S) :
    c.Agree (c.loadJson p (some (.object (c.toJson p x))) fresh) x ↔ c.Restorable fresh x := by
  have reloaded := Clauses.reloaded p wf fresh x
  constructor
  · intro same
    exact c.restorable_of_reloaded p wf plain reloaded same
  · intro restorable
    exact c.agree_of_reloaded p wf reloaded restorable

/-- A struct with `F(list)` and `P(bound)`, both lists that start with one entry. -/
structure ListsWithDefault where
  list : List QString := ["a"]
  bound : Bindable ["a"] := ⟨["a"]⟩

namespace ListsWithDefault

def clauses : Clauses ListsWithDefault :=
  .F "list" ⟨list, fun a s => { s with list := a }, by intros; rfl, by intros; rfl, by intros; rfl⟩
    (.list (.leaf .string) "") <|
  .P "bound"
    ⟨bound, fun a s => { s with bound := a }, by intros; rfl, by intros; rfl, by intros; rfl⟩
    (.list (.leaf .string) "") .nil

theorem clauses_wf : clauses.Wf := by
  simp [clauses, Clauses.Wf, Ty.Wf, Ty.AtDefaults, Clauses.keys, Clauses.Apart, Lens.Apart]

theorem clauses_plain : clauses.Plain := by
  simp [clauses, Clauses.Plain, Ty.Plain, Leaf.Plain]

end ListsWithDefault

open ListsWithDefault in
/-- A list that keeps an entry comes back, and so does one that is back at its default. -/
theorem nonempty_list_restored :
    clauses.Agree (clauses.loadJson .reference
      (some (.object (clauses.toJson .reference { list := ["b"] }))) {}) { list := ["b"] } :=
  (loadJson_toJson_agree_iff .reference clauses clauses_wf clauses_plain {} { list := ["b"] }).mpr
    (by simp [clauses, Clauses.Restorable, Ty.Restorable, Ty.Omitted, Leaf.Carried, Ty.Agree,
      Bindable.isDefault])

open ListsWithDefault in
/-- Lists that were emptied come back with their default entries. -/
theorem emptied_list_not_restored :
    clauses.Wf ∧ clauses.Plain ∧ clauses.AtDefaults {} ∧
      ¬clauses.Agree (clauses.loadJson .reference
        (some (.object (clauses.toJson .reference { list := [], bound := ⟨[]⟩ }))) {})
        { list := [], bound := ⟨[]⟩ } := by
  refine ⟨clauses_wf, clauses_plain, ?_, ?_⟩
  · simp [clauses, Clauses.AtDefaults, Ty.AtDefaults]
  · have saved : clauses.toJson .reference { list := [], bound := ⟨[]⟩ } = ∅ := rfl
    have loaded : clauses.loadJson .reference (some (.object ∅)) {} = {} := rfl
    rw [saved, loaded]
    simp [clauses, Clauses.Agree, Ty.Agree]

end QvPlugin.Utils
