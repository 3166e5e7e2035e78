import QvPlugin.Utils.SetValue

/-!
Paths that are put together with the operators of `QJsonIOPath`: what is read and written through
the whole path is what is read and written through its parts, one below the other.
-/

set_option autoImplicit false
set_option relaxedAutoImplicit false

namespace QvPlugin.Utils

open Lib Qt

namespace QJsonIOPath

/-- `operator<<` and `operator+` with another path. -/
def concat (path other : QJsonIOPath) : QJsonIOPath :=
  other.foldl (fun _new x => _new ++ [x]) path

theorem concat_eq_append (path other : QJsonIOPath) : concat path other = path ++ other := by
  unfold concat
  induction other generalizing path with
  | nil => exact (List.append_nil path).symm
  | cons x other ih =>
      rw [List.foldl_cons, ih, List.append_assoc, List.singleton_append]

theorem concat_ofKeys (keys keys' : List Key) :
    concat (ofKeys keys) (ofKeys keys') = ofKeys (keys ++ keys') := by
  rw [concat_eq_append, ofKeys_eq_map, ofKeys_eq_map, ofKeys_eq_map, List.map_append]

end QJsonIOPath

namespace QJsonIO

open QJsonIOPath (ofKeys concat concat_ofKeys stored)

/-- The value as a parent for the key: `toArray()` for an index, `toObject()` for a key. -/
def parentFor (v : QJsonValue) : Key → Parent
  | .index _ => .array (toArray v)
  | .name _ => .object (toObject v)

theorem isFor_parentFor (v : QJsonValue) (k : Key) : IsFor (parentFor v k).toValue k = true := by
  cases k <;> rfl

theorem put_parentFor {v w : QJsonValue} (same : SameInside v w) (k : Key) (path : List Key)
    (t : QJsonValue) : put (parentFor v k).toValue (k :: path) t = put w (k :: path) t := by
  have inside : put v (k :: path) t = put w (k :: path) t := put_congr same k path t
  rw [← inside]
  cases k with
  | index i => exact put_toArray v i path t
  | name s => exact put_toObject v s path t

/-- A write through both parts: the node at the end of the first part is replaced by itself with the
second part written. -/
theorem put_append_read (v : QJsonValue) (path : List Key) (k : Key) (path' : List Key)
    (t : QJsonValue) :
    put v (path ++ k :: path') t =
      put v path (put (parentFor (read v path) k).toValue (k :: path') t) := by
  have node := sameInside_read v v ⟨rfl, rfl⟩ path
  rw [put_append, put_parentFor node]

theorem SetValuePath_congr {parent : Parent} {keys keys' : List Key} {t t' : QJsonValue}
    (same : put parent.toValue (keys.map stored) t = put parent.toValue (keys'.map stored) t') :
    SetValuePath parent t (ofKeys keys) = SetValuePath parent t' (ofKeys keys') := by
  rw [SetValuePath_eq_put, SetValuePath_eq_put, same]

structure ConcatLaws (parent : Parent) (path : List Key) (k : Key) (ks : List Key) : Prop where
  get : ∀ defaultValue : QJsonValue,
    GetValuePath parent.toValue (concat (ofKeys path) (ofKeys (k :: ks))) defaultValue =
      GetValuePath (GetValuePath parent.toValue (ofKeys path) none) (ofKeys (k :: ks)) defaultValue
  /-- The value at the path is read, written into as a parent for the next key, and put back. -/
  set : ∀ t : QJsonValue,
    SetValuePath parent t (concat (ofKeys path) (ofKeys (k :: ks))) =
      SetValuePath parent
        (SetValuePath (parentFor (GetValuePath parent.toValue (ofKeys path) none) k) t
          (ofKeys (k :: ks))).toValue
        (ofKeys path)

/-- `GetValue` and `SetValue` go through `path + other` as through one and then the other, whatever
is on the way. -/
theorem concat_laws (parent : Parent) (path : List Key) (k : Key) (ks : List Key) :
    ConcatLaws parent path k ks := by
  have node : GetValuePath parent.toValue (ofKeys path) none =
      read parent.toValue (path.map stored) := by
    rw [GetValuePath_eq_read, Option.or_none]
  constructor
  · intro defaultValue
    rw [concat_ofKeys, node, GetValuePath_eq_read, GetValuePath_eq_read, List.map_append,
      read_append]
  · intro t
    rw [concat_ofKeys, node]
    apply SetValuePath_congr
    have inner := toValue_SetValuePath
      (isFor_parentFor (read parent.toValue (path.map stored)) k) ks t
    have kind : parentFor (read parent.toValue (path.map stored)) k =
        parentFor (read parent.toValue (path.map stored)) (stored k) := by
      cases k <;> rfl
    rw [inner, kind, List.map_append, List.map_cons]
    exact put_append_read parent.toValue (path.map stored) (stored k) (ks.map stored) t

end QJsonIO

end QvPlugin.Utils
