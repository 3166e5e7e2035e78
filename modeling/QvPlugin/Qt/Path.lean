import QvPlugin.Qt.Json

/-! Paths into a JSON document. -/

set_option autoImplicit false
set_option relaxedAutoImplicit false

namespace QvPlugin.Qt

open Lib

/-- One step of a path: a position in an array or a key of an object. -/
inductive Key where
  | index (i : ℕ)
  | name (s : QString)
  deriving DecidableEq

def Key.Below (n : ℕ) : Key → Prop
  | .index i => i < n
  | .name _ => True

/-- `QJsonValue::operator[] const`: Undefined where the step does not apply. -/
def valueAt (v : QJsonValue) : Key → QJsonValue
  | .index i => valueAtIndex v i
  | .name s => valueAtKey v s

def follow : QJsonValue → List Key → QJsonValue
  | v, [] => v
  | v, k :: path => follow (valueAt v k) path

/-- Every step of the path exists, and the value at its end is defined. -/
inductive Resolves : QJsonValue → List Key → Prop
  | here (j : Json) : Resolves (some j) []
  | element (a : QJsonArray) (i : ℕ) (path : List Key) (rest : Resolves (a[i]?).join path) :
      Resolves (some (.array a)) (.index i :: path)
  | member (o : QJsonObject) (s : QString) (path : List Key) (rest : Resolves (o.lookup s) path) :
      Resolves (some (.object o)) (.name s :: path)

/-- Read as a container, the two values hold the same. -/
def SameInside (v w : QJsonValue) : Prop := toArray v = toArray w ∧ toObject v = toObject w

theorem Key.Below.mono {k : Key} {n m : ℕ} (below : k.Below n) (le : n ≤ m) : k.Below m := by
  cases k with
  | index i => exact lt_of_lt_of_le below le
  | name s => trivial

@[simp] theorem follow_nil (v : QJsonValue) : follow v [] = v := rfl

@[simp] theorem follow_cons (v : QJsonValue) (k : Key) (path : List Key) :
    follow v (k :: path) = follow (valueAt v k) path := rfl

@[simp] theorem valueAt_none (k : Key) : valueAt none k = none := by
  cases k with
  | index i => rfl
  | name s => exact KeyMap.lookup_empty s

@[simp] theorem follow_none (path : List Key) : follow none path = none := by
  induction path with
  | nil => rfl
  | cons k path ih => rw [follow_cons, valueAt_none, ih]

theorem follow_append (v : QJsonValue) (path path' : List Key) :
    follow v (path ++ path') = follow (follow v path) path' := by
  induction path generalizing v with
  | nil => rfl
  | cons k path ih => exact ih (valueAt v k)

@[simp] theorem valueAt_object_name (o : QJsonObject) (s : QString) :
    valueAt (some (.object o)) (.name s) = o.lookup s := rfl

@[simp] theorem valueAt_object_index (o : QJsonObject) (i : ℕ) :
    valueAt (some (.object o)) (.index i) = none := rfl

@[simp] theorem valueAt_array_index (a : QJsonArray) (i : ℕ) :
    valueAt (some (.array a)) (.index i) = (a[i]?).join := rfl

@[simp] theorem valueAt_array_name (a : QJsonArray) (s : QString) :
    valueAt (some (.array a)) (.name s) = none := KeyMap.lookup_empty s

theorem valueAt_congr {v w : QJsonValue} (same : SameInside v w) (k : Key) :
    valueAt v k = valueAt w k := by
  obtain ⟨array, object⟩ := same
  cases k with
  | index i =>
      unfold valueAt valueAtIndex
      rw [array]
  | name s =>
      unfold valueAt valueAtKey
      rw [object]

theorem eq_array_of_element {v : QJsonValue} {i : ℕ} {j : Json}
    (held : valueAt v (.index i) = some j) : v = some (.array (toArray v)) := by
  match v with
  | some (.array _) => rfl
  | none | some .null | some (.bool _) | some (.number _) | some (.string _) | some (.obj ..) =>
      simp [valueAt, valueAtIndex, toArray] at held

theorem root_of_follow {v : QJsonValue} {path : List Key} {j : Json}
    (reached : follow v path = some j) : ∃ x, v = some x := by
  cases v with
  | none =>
      rw [follow_none] at reached
      exact nomatch reached
  | some x => exact ⟨x, rfl⟩

/-- A path resolves exactly when following it ends at a defined value. -/
theorem resolves_iff (v : QJsonValue) (path : List Key) :
    Resolves v path ↔ ∃ j, follow v path = some j := by
  constructor
  · intro resolves
    induction resolves with
    | here j => exact ⟨j, rfl⟩
    | element a i path rest ih => exact ih
    | member o s path rest ih => exact ih
  · rintro ⟨j, reached⟩
    induction path generalizing v with
    | nil =>
        rw [follow_nil] at reached
        rw [reached]
        exact Resolves.here j
    | cons k path ih =>
        rw [follow_cons] at reached
        have rest := ih _ reached
        obtain ⟨x, child⟩ := root_of_follow reached
        cases k with
        | index i =>
            rw [eq_array_of_element child] at rest ⊢
            exact Resolves.element _ i path rest
        | name s =>
            have object := eq_object_of_lookup child
            rw [object] at rest ⊢
            exact Resolves.member _ s path rest

def valueUnder (v : QJsonValue) (keys : List QString) : QJsonValue := follow v (keys.map Key.name)

@[simp] theorem valueUnder_nil (v : QJsonValue) : valueUnder v [] = v := rfl

theorem valueUnder_cons (v : QJsonValue) (k : QString) (keys : List QString) :
    valueUnder v (k :: keys) = valueUnder ((toObject v).lookup k) keys := rfl

@[simp] theorem valueUnder_none (keys : List QString) : valueUnder none keys = none :=
  follow_none (keys.map Key.name)

theorem member_of_valueUnder {v : QJsonValue} {k : QString} {keys : List QString} {j : Json}
    (reached : valueUnder v (k :: keys) = some j) :
    ∃ x, (toObject v).lookup k = some x ∧ valueUnder (some x) keys = some j := by
  rw [valueUnder_cons] at reached
  obtain ⟨x, child⟩ := root_of_follow reached
  rw [child] at reached
  exact ⟨x, child, reached⟩

theorem isObject_of_valueUnder {v : QJsonValue} {k : QString} {keys : List QString} {j : Json}
    (reached : valueUnder v (k :: keys) = some j) : isObject v = true := by
  obtain ⟨x, child, -⟩ := member_of_valueUnder reached
  rw [eq_object_of_lookup child]
  rfl

theorem follow_scalar {j : Json} (notArray : isArray (some j) = false)
    (notObject : isObject (some j) = false) (k : Key) (path : List Key) :
    follow (some j) (k :: path) = none := by
  have absent : valueAt (some j) k = none := by
    cases j with
    | array a => exact absurd notArray (by simp)
    | object o => exact absurd notObject (by simp)
    | _ =>
        cases k with
        | index i => rfl
        | name s => exact KeyMap.lookup_empty s
  rw [follow_cons, absent, follow_none]

theorem follow_empty_array (k : Key) (path : List Key) :
    follow (some (.array [])) (k :: path) = none := by
  cases k <;> simp

theorem follow_empty_object (k : Key) (path : List Key) :
    follow (some (.object ∅)) (k :: path) = none := by
  cases k <;> simp

end QvPlugin.Qt
