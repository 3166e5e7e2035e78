import QvPlugin.Qt.Path

/-!
Writing at a path: what a path write is meant to do. Every node on the way becomes a container
of the kind that its step needs, arrays grow with Nulls, and nothing beside the path changes.
-/

set_option autoImplicit false
set_option relaxedAutoImplicit false

namespace QvPlugin.Qt

open Lib

/-- The array with Nulls at its end, long enough to have the position. -/
def padded (a : QJsonArray) (i : ℕ) : QJsonArray :=
  a ++ List.replicate (i + 1 - a.length) (some .null)

/-- One step of a write: the node becomes a container that holds `x` there. -/
def write (v : QJsonValue) : Key → QJsonValue → QJsonValue
  | .index i, x => some (.array ((padded (toArray v) i).set i x))
  | .name s, x => some (.object (QJsonObject.insert (toObject v) s x))

/-- The document with `w` at the end of the path. -/
def put : QJsonValue → List Key → QJsonValue → QJsonValue
  | _, [], w => w
  | v, k :: path, w => write v k (put (valueAt v k) path w)

def IsFor (v : QJsonValue) : Key → Bool
  | .index _ => isArray v
  | .name _ => isObject v

def Has (v : QJsonValue) : Key → Bool
  | .index i => i < (toArray v).length
  | .name s => (toObject v).contains s

section Padded

theorem length_padded (a : QJsonArray) (i : ℕ) : (padded a i).length = max a.length (i + 1) := by
  rw [padded, List.length_append, List.length_replicate]
  omega

theorem padded_of_lt {a : QJsonArray} {i : ℕ} (inside : i < a.length) : padded a i = a := by
  have enough : i + 1 - a.length = 0 := by omega
  rw [padded, enough, List.replicate_zero, List.append_nil]

theorem getElem?_padded_old {a : QJsonArray} {i j : ℕ} (old : j < a.length) :
    (padded a i)[j]? = a[j]? := by
  rw [padded, List.getElem?_append_left old]

theorem getElem?_padded_new {a : QJsonArray} {i j : ℕ} (new : a.length ≤ j) (below : j ≤ i) :
    (padded a i)[j]? = some (some .null) := by
  have room : j - a.length < i + 1 - a.length := by omega
  rw [padded, List.getElem?_append_right new, List.getElem?_replicate_of_lt room]

end Padded

section Write

theorem valueAt_write (v : QJsonValue) (k : Key) (x : Json) :
    valueAt (write v k (some x)) k = some x := by
  cases k with
  | index i =>
      have inside : i < (padded (toArray v) i).length := by
        rw [length_padded]
        omega
      rw [write, valueAt_array_index, List.getElem?_set_self inside, Option.join_some]
  | name s =>
      rw [write, valueAt_object_name, QJsonObject.lookup_insert, if_pos rfl]

theorem valueAt_write_of_ne {v : QJsonValue} {k k' : Key} (differ : k ≠ k')
    (container : IsFor v k = true) (had : Has v k' = true) (x : QJsonValue) :
    valueAt (write v k x) k' = valueAt v k' := by
  cases k with
  | index i =>
      rw [eq_array_of_isArray container] at had ⊢
      generalize toArray v = a at had ⊢
      cases k' with
      | index j =>
          have other : i ≠ j := fun same => differ (congrArg Key.index same)
          have old : j < a.length := of_decide_eq_true had
          rw [write, toArray_array, valueAt_array_index, valueAt_array_index,
            List.getElem?_set_ne other, getElem?_padded_old old]
      | name s => rw [write, valueAt_array_name, valueAt_array_name]
  | name s =>
      rw [eq_object_of_isObject container] at had ⊢
      generalize toObject v = o at had ⊢
      cases k' with
      | index j => rw [write, valueAt_object_index, valueAt_object_index]
      | name s' =>
          have other : s' ≠ s := fun same => differ (congrArg Key.name same.symm)
          rw [write, toObject_object, valueAt_object_name, valueAt_object_name,
            QJsonObject.lookup_insert, if_neg other]

theorem write_write (v : QJsonValue) (k : Key) (x y : QJsonValue) :
    write (write v k x) k y = write v k y := by
  cases k with
  | index i =>
      have inside : i < ((padded (toArray v) i).set i x).length := by
        rw [List.length_set, length_padded]
        omega
      rw [write, write, write, toArray_array, padded_of_lt inside, List.set_set]
  | name s =>
      rw [write, write, write, toObject_object, QJsonObject.insert_insert]

theorem write_self {v : QJsonValue} {k : Key} {x : Json} (held : valueAt v k = some x) :
    write v k (some x) = v := by
  cases k with
  | index i =>
      have slot : (toArray v)[i]? = some (some x) := Option.join_eq_some_iff.mp held
      obtain ⟨inside, value⟩ := List.getElem?_eq_some_iff.mp slot
      rw [write, padded_of_lt inside, ← value, List.set_getElem_self]
      exact (eq_array_of_element held).symm
  | name s =>
      change (toObject v).lookup s = some x at held
      rw [write, QJsonObject.insert, KeyMap.set_lookup_self held]
      exact (eq_object_of_lookup held).symm

end Write

section Put

theorem put_cons (v : QJsonValue) (k : Key) (path : List Key) (w : QJsonValue) :
    put v (k :: path) w = write v k (put (valueAt v k) path w) := rfl

theorem put_append (v : QJsonValue) (path path' : List Key) (w : QJsonValue) :
    put v (path ++ path') w = put v path (put (follow v path) path' w) := by
  induction path generalizing v with
  | nil => rfl
  | cons k path ih => exact congrArg (write v k) (ih (valueAt v k))

theorem exists_put_cons_eq_some (v : QJsonValue) (k : Key) (path : List Key) (w : QJsonValue) :
    ∃ j, put v (k :: path) w = some j := by
  cases k with
  | index i => exact ⟨_, rfl⟩
  | name s => exact ⟨_, rfl⟩

theorem exists_put_eq_some (v : QJsonValue) (path : List Key) (w : Json) :
    ∃ j, put v path (some w) = some j := by
  cases path with
  | nil => exact ⟨w, rfl⟩
  | cons k path => exact exists_put_cons_eq_some v k path (some w)

/-- At a node above the end of the path the rest of the write is done, whatever is written. -/
theorem follow_put_cons (v : QJsonValue) (path : List Key) (k : Key) (path' : List Key)
    (w : QJsonValue) :
    follow (put v (path ++ k :: path') w) path = put (follow v path) (k :: path') w := by
  induction path generalizing v with
  | nil => rfl
  | cons c path ih =>
      have defined : ∃ j, put (valueAt v c) (path ++ k :: path') w = some j := by
        cases path with
        | nil => exact exists_put_cons_eq_some _ k path' w
        | cons c' path => exact exists_put_cons_eq_some _ c' (path ++ k :: path') w
      obtain ⟨j, defined⟩ := defined
      rw [List.cons_append, put, follow_cons, defined, valueAt_write, ← defined, ih, follow_cons]

theorem follow_put (v : QJsonValue) (path : List Key) (w : Json) :
    follow (put v path (some w)) path = some w := by
  induction path generalizing v with
  | nil => rfl
  | cons k path ih =>
      obtain ⟨j, defined⟩ := exists_put_eq_some (valueAt v k) path w
      rw [put, follow_cons, defined, valueAt_write, ← defined, ih]

theorem put_put (v : QJsonValue) (path : List Key) (w w' : Json) :
    put (put v path (some w)) path (some w') = put v path (some w') := by
  induction path generalizing v with
  | nil => rfl
  | cons k path ih =>
      obtain ⟨j, defined⟩ := exists_put_eq_some (valueAt v k) path w
      rw [put, put, put, defined, valueAt_write, ← defined, ih, write_write]

theorem put_follow {v : QJsonValue} {path : List Key} {w : Json} (held : follow v path = some w) :
    put v path (some w) = v := by
  induction path generalizing v with
  | nil => exact held.symm
  | cons k path ih =>
      rw [follow_cons] at held
      obtain ⟨x, child⟩ := root_of_follow held
      rw [put, ih held, child]
      exact write_self child

theorem put_congr {v v' : QJsonValue} (same : SameInside v v') (k : Key) (path : List Key)
    (w : QJsonValue) : put v (k :: path) w = put v' (k :: path) w := by
  have child := valueAt_congr same k
  obtain ⟨array, object⟩ := same
  cases k with
  | index i =>
      unfold put write
      rw [child, array]
  | name s =>
      unfold put write
      rw [child, object]

end Put

end QvPlugin.Qt
