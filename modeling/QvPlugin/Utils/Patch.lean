import QvPlugin.Utils.MapDecode
import QvPlugin.Utils.Normalise

/-!
`loadJson` as a patch of its target. Which leaf fields a document reaches is a matter of the
paths it has, so what a load leaves alone, and which loads commute, can be read off the paths.
-/

set_option autoImplicit false
set_option relaxedAutoImplicit false

namespace QvPlugin.Utils

open Lib Qt Common

/-- `j'` is `j` without a key that the struct at its level does not declare: at the top, in a
declared member, or in an element of a container. -/
inductive Ty.Removes : {α : Type} → Ty α → Json → Json → Prop
  | key {S : Type} {c : Clauses S} {k : QString} (undeclared : k ∉ c.keys) (o : QJsonObject) :
      Removes (.struct c) (.object o) (.object (o.erase k))
  | member {S α : Type} {c : Clauses S} {t : Ty α} {name : QString} {j j' : Json}
      (declared : c.Declares name t) (inner : Removes t j j') (o : QJsonObject)
      (held : o.lookup name = some j) : Removes (.struct c) (.object o) (.object (o.set name j'))
  | element {α : Type} {t : Ty α} {fresh : α} {i : ℕ} {j j' : Json} (inner : Removes t j j')
      (a : QJsonArray) (held : a[i]? = some (some j)) :
      Removes (.list t fresh) (.array a) (.array (a.set i (some j')))
  | setElement {α : Type} [DecidableEq α] {t : Ty α} {fresh : α} {i : ℕ} {j j' : Json}
      (inner : Removes t j j') (a : QJsonArray) (held : a[i]? = some (some j)) :
      Removes (.set t fresh) (.array a) (.array (a.set i (some j')))
  | mapValue {α : Type} {t : Ty α} {fresh : α} {k : QString} {j j' : Json}
      (inner : Removes t j j') (o : QJsonObject) (held : o.lookup k = some j) :
      Removes (.map t fresh) (.object o) (.object (o.set k j'))

variable (p : Platform)

/-- `loadJson` patches its target. -/
structure Clauses.Patches {S : Type} (c : Clauses S) : Prop where
  /-- What is not an object changes nothing. -/
  notObject : ∀ j : QJsonValue, isObject j = false → ∀ y, c.loadJson p j y = y
  /-- A leaf field whose path the document does not have keeps its value. -/
  frame : ∀ (j : QJsonValue), ∀ f ∈ c.leaves, valueUnder j f.path = none →
    ∀ y, f.member.get (c.loadJson p j y) = f.member.get y
  /-- A key that is not declared at its level is not read. -/
  undeclared : ∀ j j' : Json, (Ty.struct c).Removes j j' →
    ∀ y, c.loadJson p (some j') y = c.loadJson p (some j) y
  idempotent : ∀ (j : QJsonValue) (y : S), c.loadJson p j (c.loadJson p j y) = c.loadJson p j y
  /-- Documents that share no leaf path can be loaded in either order. -/
  commute : ∀ j₁ j₂ : QJsonValue,
    (∀ f ∈ c.leaves, valueUnder j₁ f.path = none ∨ valueUnder j₂ f.path = none) →
    ∀ y, c.loadJson p j₂ (c.loadJson p j₁ y) = c.loadJson p j₁ (c.loadJson p j₂ y)

section Undeclared

theorem Clauses.Declares.separate {S α : Type} {c : Clauses S} {name : QString} {t : Ty α}
    (declared : c.Declares name t) (separate : c.Separate) : t.Separate := by
  induction declared with
  | F =>
      rw [Clauses.Separate] at separate
      exact separate.1
  | restF _ ih =>
      rw [Clauses.Separate] at separate
      exact ih separate.2.2.2
  | base _ ih =>
      rw [Clauses.Separate] at separate
      exact ih separate.1
  | restB _ ih =>
      rw [Clauses.Separate] at separate
      exact ih separate.2.2.2

private theorem loadJson_of_not_mem {S : Type} {c : Clauses S} {name : QString}
    {json json' : QJsonValue} (absent : name ∉ c.keys)
    (elsewhere : ∀ k, k ≠ name → (toObject json').lookup k = (toObject json).lookup k) (s : S) :
    c.loadJson p json' s = c.loadJson p json s := by
  apply c.loadJson_congr p
  intro k listed
  exact elsewhere k fun same => absent (same ▸ listed)

/-- Two documents that differ under one declared key only, where the member reads them alike. -/
theorem Clauses.Declares.loadJson_eq {S α : Type} {c : Clauses S} {name : QString} {t : Ty α}
    (declared : c.Declares name t) (separate : c.Separate) {json json' : QJsonValue}
    (elsewhere : ∀ k, k ≠ name → (toObject json').lookup k = (toObject json).lookup k)
    (alike : ∀ x, t.reload p x ((toObject json').lookup name) =
      t.reload p x ((toObject json).lookup name)) (s : S) :
    c.loadJson p json' s = c.loadJson p json s := by
  induction declared with
  | F =>
      rw [Clauses.Separate] at separate
      obtain ⟨-, fresh, -, -⟩ := separate
      rw [Clauses.loadJson_F, Clauses.loadJson_F, alike, loadJson_of_not_mem p fresh elsewhere]
  | @restF S α β name k member t rest u later ih =>
      rw [Clauses.Separate] at separate
      obtain ⟨-, fresh, -, others⟩ := separate
      have different : name ≠ k := fun same => fresh (same ▸ later.mem_keys)
      rw [Clauses.loadJson_F, Clauses.loadJson_F, elsewhere name different,
        ih others elsewhere alike]
  | base inner ih =>
      rw [Clauses.Separate] at separate
      obtain ⟨innerSeparate, distinct, -, -⟩ := separate
      rw [Clauses.loadJson, Clauses.loadJson, ih innerSeparate elsewhere alike,
        loadJson_of_not_mem p (distinct _ inner.mem_keys) elsewhere]
  | @restB S β γ k base clauses rest u later ih =>
      rw [Clauses.Separate] at separate
      obtain ⟨-, distinct, -, others⟩ := separate
      have foreign : k ∉ clauses.keys := fun own => distinct k own later.mem_keys
      rw [Clauses.loadJson, Clauses.loadJson, loadJson_of_not_mem p foreign elsewhere,
        ih others elsewhere alike]

private theorem map_set_eq {β : Type} {f : QJsonValue → β} {a : QJsonArray} {i : ℕ} {j j' : Json}
    (held : a[i]? = some (some j)) (alike : f (some j') = f (some j)) :
    (a.set i (some j')).map f = a.map f := by
  have inside : i < a.length := (List.getElem?_eq_some_iff.mp held).1
  apply List.ext_getElem?
  intro n
  rw [List.getElem?_map, List.getElem?_map, List.getElem?_set]
  by_cases here : i = n
  · subst here
    rw [if_pos rfl, if_pos inside, held]
    exact congrArg some alike
  · rw [if_neg here]

/-- Removing an undeclared key anywhere leaves what the document decodes to. -/
theorem Ty.Removes.deserialize_eq {α : Type} {t : Ty α} {j j' : Json} (removes : t.Removes j j')
    (separate : t.Separate) (x : α) : t.deserialize p x (some j') = t.deserialize p x (some j) := by
  induction removes with
  | @key S c k undeclared o =>
      rw [Ty.deserialize, Ty.deserialize]
      apply c.loadJson_congr p
      intro k' listed
      have other : k' ≠ k := fun same => undeclared (same ▸ listed)
      rw [toObject_object, toObject_object, KeyMap.lookup_erase, if_neg other]
  | @member S α c t name j j' declared inner o held ih =>
      rw [Ty.Separate] at separate
      rw [Ty.deserialize, Ty.deserialize]
      apply declared.loadJson_eq p separate
      · intro k other
        rw [toObject_object, toObject_object, KeyMap.lookup_set, if_neg other]
      · intro x
        rw [toObject_object, toObject_object, KeyMap.lookup_set, if_pos rfl, held]
        exact ih (declared.separate separate) x
  | @element α t fresh i j j' inner a held ih =>
      rw [Ty.Separate] at separate
      rw [Ty.deserialize_list, Ty.deserialize_list, toArray_array, toArray_array,
        map_set_eq held (ih separate fresh)]
  | @setElement α _ t fresh i j j' inner a held ih =>
      rw [Ty.Separate] at separate
      rw [Ty.deserialize_set, Ty.deserialize_set, toArray_array, toArray_array,
        map_set_eq held (ih separate fresh)]
  | @mapValue α t fresh k j j' inner o held ih =>
      rw [Ty.Separate] at separate
      have decoders : (o.set k j').mapValues (t.decoder p) = o.mapValues (t.decoder p) := by
        ext1 k'
        rw [KeyMap.lookup_mapValues, KeyMap.lookup_mapValues, KeyMap.lookup_set]
        split_ifs with same
        · rw [same, held, Option.map_some, Option.map_some]
          congr 1
          funext x
          exact ih separate x
        · rfl
      rw [Ty.deserialize_map, Ty.deserialize_map, toObject_object, toObject_object, decoders]

end Undeclared

private theorem toObject_of_notObject {j : QJsonValue} (notObject : isObject j = false) :
    toObject j = ∅ := by
  match j with
  | some (.obj ..) => exact nomatch notObject
  | none | some .null | some (.bool _) | some (.number _) | some (.string _) | some (.array _) =>
      rfl

/-- `loadJson` patches its target, for every struct with distinct keys. -/
theorem Clauses.loadJson_patches {S : Type} {c : Clauses S} (separate : c.Separate) :
    c.Patches p := by
  have pairwise := c.leaves_pairwise separate
  constructor
  · intro j notObject y
    exact c.loadJson_of_empty p (toObject_of_notObject notObject) y
  · intro j f listed absent y
    rw [c.loadJson_eq_modifyAll, get_modifyAll pairwise listed, f.load_of_absent p absent]
  · intro j j' removes y
    have alike := removes.deserialize_eq p (by rw [Ty.Separate]; exact separate) y
    rwa [Ty.deserialize, Ty.deserialize] at alike
  · intro j y
    rw [c.loadJson_eq_modifyAll, c.loadJson_eq_modifyAll, modifyAll_modifyAll pairwise]
    apply modifyAll_congr pairwise
    intro f listed
    cases reached : valueUnder j f.path with
    | none => rw [f.load_of_absent p reached]
    | some v => exact f.load_of_present p reached _ _
  · intro j₁ j₂ apart y
    simp only [c.loadJson_eq_modifyAll, modifyAll_modifyAll pairwise]
    apply modifyAll_congr pairwise
    intro f listed
    rcases apart f listed with absent | absent
    · rw [f.load_of_absent p absent, f.load_of_absent p absent]
    · rw [f.load_of_absent p absent, f.load_of_absent p absent]

/-- A connection has nested statistics and two bases, one inside the other. -/
theorem ConnectionObject_patches : ConnectionObject.clauses.Patches .reference :=
  Clauses.loadJson_patches .reference ConnectionObject.clauses_regular.2.separate

end QvPlugin.Utils
