import QvPlugin.Qt.PathWrite
import QvPlugin.Utils.GetValue

/-!
Both implementations of `SetValue` write at the path. The variadic one pads and descends by the
kind of the next key; the other takes snapshots on the way down and pads them on the way up.
-/

set_option autoImplicit false
set_option relaxedAutoImplicit false

namespace QvPlugin.Utils

open Lib Qt

namespace QJsonIO

open QJsonIOPath (ofKeys step ofKeys_eq_map stored map_stored_of_below)

section Grow

private theorem foldl_insertIdx (array : QJsonArray) (count : ℕ) :
    (List.range' array.length count).foldl
      (fun array i => array.insertIdx i (some Json.null)) array =
        array ++ List.replicate count (some .null) := by
  induction count generalizing array with
  | zero => exact (List.append_nil array).symm
  | succ count ih =>
      have atEnd : array.insertIdx array.length (some .null) = array ++ [some .null] :=
        List.insertIdx_length_self
      have length : array.length + 1 = (array ++ [some Json.null]).length := by simp
      rw [List.range'_succ, List.foldl_cons, atEnd, length, ih, List.append_assoc,
        List.replicate_succ]
      rfl

theorem grow_eq_padded (array : QJsonArray) (index : ℕ) : grow array index = padded array index :=
  foldl_insertIdx array (index + 1 - array.length)

theorem sameInside_grow (array : QJsonArray) (index : ℕ) :
    SameInside (QJsonArray.subscript (grow array index) index)
      (valueAt (some (.array array)) (.index index)) := by
  rw [valueAt_array_index, grow_eq_padded, QJsonArray.subscript]
  by_cases old : index < array.length
  · rw [getElem?_padded_old old]
    exact ⟨rfl, rfl⟩
  · have past : array.length ≤ index := by omega
    rw [getElem?_padded_new past le_rfl, List.getElem?_eq_none past]
    exact ⟨rfl, rfl⟩

end Grow

section Variadic

theorem put_array (array : QJsonArray) (index : ℕ) (path : List Key) (w : QJsonValue) :
    put (some (.array array)) (.index index :: path) w =
      some (.array (QJsonArray.assign (grow array index) index
        (put (valueAt (some (.array array)) (.index index)) path w))) := by
  rw [grow_eq_padded]
  rfl

theorem put_object (object : QJsonObject) (key : QString) (path : List Key) (w : QJsonValue) :
    put (some (.object object)) (.name key :: path) w =
      some (.object (QJsonObject.assign object key
        (put (valueAt (some (.object object)) (.name key)) path w))) := by
  rw [QJsonObject.assign_eq_insert]
  rfl

theorem assign_touch (object : QJsonObject) (key : QString) (x : QJsonValue) :
    QJsonObject.assign (QJsonObject.touch object key) key x = QJsonObject.assign object key x := by
  rw [QJsonObject.assign_eq_insert]
  rfl

theorem put_toArray (v : QJsonValue) (index : ℕ) (path : List Key) (w : QJsonValue) :
    put (some (.array (toArray v))) (.index index :: path) w = put v (.index index :: path) w := rfl

theorem put_toObject (v : QJsonValue) (key : QString) (path : List Key) (w : QJsonValue) :
    put (some (.object (toObject v))) (.name key :: path) w = put v (.name key :: path) w := rfl

/-- The recursive `SetValue` writes at the path, for a parent of either kind. -/
theorem SetValue_eq_put (val : QJsonValue) (other : List Key) :
    (∀ (parent : QJsonArray) (current : ℕ),
      some (.array (SetValueArray parent val current other)) =
        put (some (.array parent)) (.index current :: other) val) ∧
    (∀ (parent : QJsonObject) (current : QString),
      some (.object (SetValueObject parent val current other)) =
        put (some (.object parent)) (.name current :: other) val) := by
  induction other with
  | nil =>
      constructor
      · intro parent current
        rw [SetValueArray, put_array, put]
      · intro parent current
        rw [SetValueObject, put_object, put]
  | cons next other ih =>
      obtain ⟨array, object⟩ := ih
      constructor
      · intro parent current
        have child := put_congr (sameInside_grow parent current) next other val
        cases next with
        | index next => rw [SetValueArray, array, put_toArray, child, put_array]
        | name next => rw [SetValueArray, object, put_toObject, child, put_array]
      · intro parent current
        have child : put (QJsonObject.subscript parent current) (next :: other) val =
            put (valueAt (some (.object parent)) (.name current)) (next :: other) val :=
          put_congr (sameInside_subscript (some (.object parent)) (.name current)) next other val
        cases next with
        | index next => rw [SetValueObject, assign_touch, array, put_toArray, child, put_object]
        | name next => rw [SetValueObject, assign_touch, object, put_toObject, child, put_object]

end Variadic

section Stack

theorem rebuild_step (k : Key) (lastNode node : QJsonValue) :
    rebuild lastNode (step k, node) = write node (stored k) lastNode := by
  cases k with
  | index i =>
      show some (Json.array (QJsonArray.assign (grow (toArray node) (textToInt (number i)))
        (textToInt (number i)) lastNode)) = write node (stored (.index i)) lastNode
      rw [grow_eq_padded]
      rfl
  | name s =>
      show some (Json.object (QJsonObject.assign (toObject node) s lastNode)) =
        write node (.name s) lastNode
      rw [QJsonObject.assign_eq_insert]
      rfl

/-- Unwinding the snapshots taken along a path writes at the path; what was on the stack before
is rebuilt around the result. -/
theorem foldl_rebuild (keys : List Key) (_stack : List (QJsonIONodeType × QJsonValue))
    (lastNode t : QJsonValue) :
    ((keys.map step).foldl prepend (_stack, lastNode)).1.foldl rebuild t =
      _stack.foldl rebuild (put lastNode (keys.map stored) t) := by
  induction keys generalizing _stack lastNode with
  | nil => rfl
  | cons k keys ih =>
      have below : put (descend lastNode (step k)) (keys.map stored) t =
          put (valueAt lastNode (stored k)) (keys.map stored) t := by
        rw [descend_step]
        cases keys with
        | nil => rfl
        | cons k' keys =>
            exact put_congr (sameInside_subscript lastNode (stored k)) (stored k')
              (keys.map stored) t
      rw [List.map_cons, List.foldl_cons, prepend, ih, List.foldl_cons, rebuild_step, below,
        List.map_cons, put]

end Stack

section Parent

theorem toValue_injective {parent parent' : Parent} (same : parent.toValue = parent'.toValue) :
    parent = parent' := by
  cases parent with
  | object o =>
      cases parent' with
      | object o' => exact congrArg Parent.object (congrArg toObject same)
      | array a' => exact nomatch congrArg isArray same
  | array a =>
      cases parent' with
      | object o' => exact nomatch congrArg isArray same
      | array a' => exact congrArg Parent.array (congrArg toArray same)

/-- The loops write at the path, and the result is taken as a container of the parent's kind. -/
theorem SetValuePath_eq_put (parent : Parent) (keys : List Key) (t : QJsonValue) :
    SetValuePath parent t (ofKeys keys) = match parent with
      | .object _ => .object (toObject (put parent.toValue (keys.map stored) t))
      | .array _ => .array (toArray (put parent.toValue (keys.map stored) t)) := by
  have unwound := foldl_rebuild keys [] parent.toValue t
  unfold SetValuePath
  simp only [ofKeys_eq_map, unwound]
  rfl

theorem toValue_SetValuePath {parent : Parent} {current : Key}
    (fits : IsFor parent.toValue current = true) (other : List Key) (t : QJsonValue) :
    (SetValuePath parent t (ofKeys (current :: other))).toValue =
      put parent.toValue ((current :: other).map stored) t := by
  rw [SetValuePath_eq_put]
  cases parent with
  | object o =>
      cases current with
      | index i => exact nomatch fits
      | name s => rfl
  | array a =>
      cases current with
      | index i => rfl
      | name s => exact nomatch fits

theorem SetValue_eq_some {parent : Parent} {current : Key}
    (fits : IsFor parent.toValue current = true) (other : List Key) (val : QJsonValue) :
    ∃ result, SetValue parent val current other = some result ∧
      result.toValue = put parent.toValue (current :: other) val := by
  obtain ⟨array, object⟩ := SetValue_eq_put val other
  cases parent with
  | object o =>
      cases current with
      | index i => exact nomatch fits
      | name s => exact ⟨_, rfl, object o s⟩
  | array a =>
      cases current with
      | index i => exact ⟨_, rfl, array a i⟩
      | name s => exact nomatch fits

end Parent

/-- The two implementations of `SetValue` leave the same document in the parent, whatever is on
the path: missing nodes, short arrays, scalars and containers of the other kind. -/
theorem SetValue_eq_SetValuePath (parent : Parent) (val : QJsonValue) (k₁ k₂ : Key) (ks : List Key)
    (fits : IsFor parent.toValue k₁ = true)
    (small : ∀ k ∈ k₁ :: k₂ :: ks, k.Below (2 ^ 31 - 1)) :
    SetValue parent val k₁ (k₂ :: ks) =
      some (SetValuePath parent val (ofKeys (k₁ :: k₂ :: ks))) := by
  have inside : ∀ k ∈ k₁ :: k₂ :: ks, k.Below (2 ^ 31) := fun k member =>
    (small k member).mono (by omega)
  obtain ⟨result, variadic, written⟩ := SetValue_eq_some fits (k₂ :: ks) val
  have same : result = SetValuePath parent val (ofKeys (k₁ :: k₂ :: ks)) := by
    apply toValue_injective
    rw [written, toValue_SetValuePath fits, map_stored_of_below inside]
  rw [variadic, same]

/-- Through a scalar, with an array to pad below it. -/
theorem scalar_replaced_alike :
    let parent := Parent.object (KeyMap.set ∅ "a" (.number 1))
    SetValue parent none (.name "a") [.index 2] =
      some (SetValuePath parent none (ofKeys [.name "a", .index 2])) := by
  intro parent
  exact SetValue_eq_SetValuePath parent none (.name "a") (.index 2) [] rfl (by simp [Key.Below])

end QJsonIO

end QvPlugin.Utils
