import QvPlugin.Utils.MergeJson
import QvPlugin.Utils.QJsonIO

/-!
`MergeJson` path by path. Below two objects the merge goes on key by key, so what it does at a
path of object keys follows by induction on the path from what it does to the two values there.
-/

set_option autoImplicit false
set_option relaxedAutoImplicit false

namespace QvPlugin.Utils

open Lib Qt

/-- What may become of a value of the receiver: an object keeps its keys, an array stays as a
prefix, and anything else stays as it is. -/
def Extends : Json → Json → Prop
  | .obj ks sorted vs, new =>
      isObject (some new) = true ∧
        ∀ k, (toObject (some (.obj ks sorted vs))).contains k = true →
          (toObject (some new)).contains k = true
  | .array a, new => ∃ b, new = .array (a ++ b)
  | old, new => new = old

/-- Every proper prefix of the path is an object in the receiver, or absent there. -/
def NoClash (v : QJsonValue) (path : List QString) : Prop :=
  ∀ front k tail, path = front ++ k :: tail →
    valueUnder v front = none ∨ isObject (valueUnder v front) = true

theorem extends_refl (j : Json) : Extends j j := by
  cases j with
  | array a => exact ⟨[], by rw [List.append_nil]⟩
  | object o => exact ⟨rfl, fun _ held => held⟩
  | _ => rfl

theorem noClash_cons {v : QJsonValue} {k : QString} {path : List QString}
    (clear : NoClash v (k :: path)) :
    (v = none ∨ isObject v = true) ∧ NoClash ((toObject v).lookup k) path := by
  refine ⟨clear [] k path rfl, ?_⟩
  intro front k' tail split
  exact clear (k :: front) k' tail (congrArg (k :: ·) split)

section Value

theorem valueUnder_merge_cons (o o' : QJsonObject) (k : QString) (path : List QString) :
    valueUnder (some (mergeValue (some (.object o)) (.object o'))) (k :: path) =
      valueUnder (((o'.lookup k).map (mergeValue (o.lookup k))).or (o.lookup k)) path := by
  rw [mergeValue_objects, valueUnder_cons, toObject_object, lookup_mergeJson]

theorem contains_mergeJson (o o' : QJsonObject) (k : QString) :
    (mergeJson o (some (.object o'))).contains k = (o.contains k || o'.contains k) := by
  unfold KeyMap.contains
  rw [lookup_mergeJson]
  cases o.lookup k <;> cases o'.lookup k <;> rfl

theorem extends_mergeValue (old new : Json) : Extends old (mergeValue (some old) new) := by
  induction old, new using mergeValue_cases with
  | objects o o' =>
      rw [mergeValue_objects]
      refine ⟨rfl, ?_⟩
      intro k held
      rw [toObject_object, contains_mergeJson]
      have own : o.contains k = true := held
      rw [own, Bool.true_or]
  | arrays a b =>
      rw [mergeValue_arrays]
      exact ⟨b.map QJsonArray.settled, rfl⟩
  | clash old new kept =>
      rw [kept]
      exact extends_refl old

theorem merge_keeps (path : List QString) (old new x : Json)
    (held : valueUnder (some old) path = some x) :
    ∃ y, valueUnder (some (mergeValue (some old) new)) path = some y ∧ Extends x y := by
  induction path generalizing old new with
  | nil =>
      have same : old = x := Option.some.inj held
      rw [← same]
      exact ⟨_, rfl, extends_mergeValue old new⟩
  | cons k path ih =>
      induction old, new using mergeValue_cases with
      | objects o o' =>
          obtain ⟨j, inner, below⟩ := member_of_valueUnder held
          rw [toObject_object] at inner
          rw [valueUnder_merge_cons, inner]
          cases o'.lookup k with
          | none => exact ⟨x, below, extends_refl x⟩
          | some j' => exact ih j j' below
      | arrays a b => exact nomatch isObject_of_valueUnder held
      | clash old new kept =>
          rw [kept]
          exact ⟨x, held, extends_refl x⟩

theorem merge_adds (path : List QString) (old : Option Json) (new z : Json)
    (found : valueUnder (some new) path = some z) (clear : NoClash old path)
    (absent : valueUnder old path = none) :
    valueUnder (some (mergeValue old new)) path = some z := by
  induction path generalizing old new with
  | nil =>
      rw [valueUnder_nil] at absent
      rw [absent]
      exact found
  | cons k path ih =>
      obtain ⟨root, below⟩ := noClash_cons clear
      rcases root with rfl | object
      · exact found
      · have right := isObject_of_valueUnder found
        obtain ⟨j, inner, found⟩ := member_of_valueUnder found
        rw [eq_object_of_isObject object, Option.some.inj (eq_object_of_isObject right),
          valueUnder_merge_cons, inner]
        exact ih _ j found below absent

theorem merge_appends (path : List QString) (old new : Json) (a b : QJsonArray)
    (found : valueUnder (some new) path = some (.array b))
    (held : valueUnder (some old) path = some (.array a)) :
    valueUnder (some (mergeValue (some old) new)) path =
      some (.array (a ++ b.map QJsonArray.settled)) := by
  induction path generalizing old new with
  | nil =>
      have left : old = .array a := Option.some.inj held
      have right : new = .array b := Option.some.inj found
      rw [left, right, mergeValue_arrays]
      rfl
  | cons k path ih =>
      have left := isObject_of_valueUnder held
      have right := isObject_of_valueUnder found
      obtain ⟨i, outer, held⟩ := member_of_valueUnder held
      obtain ⟨j, inner, found⟩ := member_of_valueUnder found
      rw [Option.some.inj (eq_object_of_isObject left),
        Option.some.inj (eq_object_of_isObject right), valueUnder_merge_cons, outer, inner]
      exact ih i j found held

theorem merge_from_either (path : List QString) (old : Option Json) (new y : Json)
    (result : valueUnder (some (mergeValue old new)) path = some y) :
    (∃ x, valueUnder old path = some x) ∨ ∃ z, valueUnder (some new) path = some z := by
  induction path generalizing old new with
  | nil => exact Or.inr ⟨new, rfl⟩
  | cons k path ih =>
      cases old with
      | none => exact Or.inr ⟨y, result⟩
      | some old =>
          induction old, new using mergeValue_cases with
          | objects o o' =>
              rw [valueUnder_merge_cons] at result
              rw [valueUnder_cons, valueUnder_cons, toObject_object, toObject_object]
              cases inner : o'.lookup k with
              | none =>
                  rw [inner] at result
                  exact Or.inl ⟨y, result⟩
              | some j =>
                  rw [inner] at result
                  exact ih _ j result
          | arrays a b =>
              rw [mergeValue_arrays] at result
              exact nomatch isObject_of_valueUnder result
          | clash old new kept =>
              rw [kept] at result
              exact Or.inl ⟨y, result⟩

end Value

/-- What `MergeJson(s, o)` leaves in `s`. -/
structure MergeLaws (s : QJsonObject) (o : QJsonValue) : Prop where
  /-- Every path of the receiver is in the result. -/
  keeps : ∀ path x, valueUnder (some (.object s)) path = some x →
    ∃ y, valueUnder (some (.object (mergeJson s o))) path = some y ∧ Extends x y
  /-- What the other side has where the receiver has nothing is taken over unchanged. -/
  adds : ∀ path z, valueUnder o path = some z → NoClash (some (.object s)) path →
    valueUnder (some (.object s)) path = none →
      valueUnder (some (.object (mergeJson s o))) path = some z
  /-- Two arrays are put one after the other; an Undefined slot is appended as Null. -/
  appends : ∀ path a b, valueUnder o path = some (.array b) → NoClash (some (.object s)) path →
    valueUnder (some (.object s)) path = some (.array a) →
      valueUnder (some (.object (mergeJson s o))) path =
        some (.array (a ++ b.map QJsonArray.settled))
  /-- Every path of the result is a path of one side. -/
  fromEither : ∀ path y, valueUnder (some (.object (mergeJson s o))) path = some y →
    (∃ x, valueUnder (some (.object s)) path = some x) ∨ ∃ z, valueUnder o path = some z
  notObject : isObject o = false → mergeJson s o = s

theorem mergeJson_of_notObject (s : QJsonObject) {o : QJsonValue} (notObject : isObject o = false) :
    mergeJson s o = s := by
  match o with
  | none => rfl
  | some (.obj ..) => exact nomatch notObject
  | some .null | some (.bool _) | some (.number _) | some (.string _) | some (.array _) => rfl

/-- `MergeJson` loses nothing of the receiver, adds everything of the other side that does not
clash, and nothing else. -/
theorem mergeJson_laws (s : QJsonObject) (o : QJsonValue) : MergeLaws s o := by
  by_cases object : isObject o = true
  · rw [eq_object_of_isObject object]
    generalize toObject o = o'
    constructor
    · intro path x held
      exact merge_keeps path (.object s) (.object o') x held
    · intro path z found clear absent
      exact merge_adds path (some (.object s)) (.object o') z found clear absent
    · intro path a b found _ held
      exact merge_appends path (.object s) (.object o') a b found held
    · intro path y result
      exact merge_from_either path (some (.object s)) (.object o') y result
    · intro absurdKind
      exact nomatch absurdKind
  · rw [Bool.not_eq_true] at object
    -- only the empty path leads to anything in `o`, and the receiver itself is there
    have root : ∀ path z, valueUnder o path = some z → path = [] := by
      intro path z found
      cases path with
      | nil => rfl
      | cons k path =>
          have kind := isObject_of_valueUnder found
          rw [object] at kind
          exact nomatch kind
    constructor
    · intro path x held
      rw [mergeJson_of_notObject s object]
      exact ⟨x, held, extends_refl x⟩
    · intro path z found _ absent
      rw [root path z found] at absent
      exact nomatch absent
    · intro path a b found _ held
      rw [root path _ found] at held
      exact nomatch held
    · intro path y result
      rw [mergeJson_of_notObject s object] at result
      exact Or.inl ⟨y, result⟩
    · exact mergeJson_of_notObject s

open QJsonIO in
/-- `SetValue` with Undefined leaves `{"a": [undefined]}`; merged into `{"a": []}` its slot is
Null. -/
theorem undefined_slot_becomes_null :
    ¬ ∀ (s : QJsonObject) (o : QJsonValue) (path : List QString) (a b : QJsonArray),
      valueUnder o path = some (.array b) → NoClash (some (.object s)) path →
        valueUnder (some (.object s)) path = some (.array a) →
          valueUnder (some (.object (mergeJson s o))) path = some (.array (a ++ b)) := by
  intro claim
  have written : (SetValuePath (.object ∅) none
      (QJsonIOPath.ofKeys [.name "a", .index 0])).toValue =
        some (.object (KeyMap.set ∅ "a" (.array [none]))) := by decide
  have clear : NoClash (some (.object (KeyMap.set ∅ "a" (.array [])))) ["a"] := by
    intro front k tail split
    cases front with
    | nil => exact Or.inr rfl
    | cons k' front => exact absurd (congrArg List.length split) (by simp)
  have exact := claim (KeyMap.set ∅ "a" (.array [])) _ ["a"] [] [none]
    (congrArg (fun v => valueUnder v ["a"]) written) clear rfl
  rw [written] at exact
  have merged : valueUnder (some (.object (mergeJson (KeyMap.set ∅ "a" (.array []))
      (some (.object (KeyMap.set ∅ "a" (.array [none]))))))) ["a"] =
        some (.array [some .null]) := by decide
  rw [merged] at exact
  exact nomatch exact

end QvPlugin.Utils
