import QvPlugin.Utils.SetValue

/-! Path reads and path writes obey the laws of a lens. -/

set_option autoImplicit false
set_option relaxedAutoImplicit false

namespace QvPlugin.Utils

open Lib Qt

namespace QJsonIO

open QJsonIOPath (ofKeys map_stored_of_below)

/-- The laws of `GetValue` and `SetValue` for one parent and one path. -/
structure LensLaws (parent : Parent) (p : List Key) : Prop where
  get_set : ∀ (v : Json) (defaultValue : QJsonValue),
    GetValuePath (SetValuePath parent (some v) (ofKeys p)).toValue (ofKeys p) defaultValue = some v
  set_set : ∀ v w : Json,
    SetValuePath (SetValuePath parent (some v) (ofKeys p)) (some w) (ofKeys p) =
      SetValuePath parent (some w) (ofKeys p)
  set_get : Resolves parent.toValue p → ∀ defaultValue : QJsonValue,
    SetValuePath parent (GetValuePath parent.toValue (ofKeys p) defaultValue) (ofKeys p) = parent
  /-- A path that leaves `p` at a container that was of the right kind and had its step. -/
  get_set_of_ne : ∀ (v : Json) (front tail tail' : List Key) (k k' : Key),
    p = front ++ k :: tail → k ≠ k' →
    IsFor (follow parent.toValue front) k = true → Has (follow parent.toValue front) k' = true →
    (∀ key ∈ front ++ k' :: tail', key.Below (2 ^ 31 - 1)) → ∀ defaultValue : QJsonValue,
    GetValuePath (SetValuePath parent (some v) (ofKeys p)).toValue
        (ofKeys (front ++ k' :: tail')) defaultValue =
      GetValuePath parent.toValue (ofKeys (front ++ k' :: tail')) defaultValue
  /-- What becomes of an array on the path; a node of another kind counts as an empty one. -/
  array_set : ∀ (v : Json) (front tail : List Key) (i : ℕ), p = front ++ .index i :: tail →
    ∃ new : QJsonArray,
      follow (SetValuePath parent (some v) (ofKeys p)).toValue front = some (.array new) ∧
      new.length = max (toArray (follow parent.toValue front)).length (i + 1) ∧
      (∀ j, j < (toArray (follow parent.toValue front)).length → j ≠ i →
        new[j]? = (toArray (follow parent.toValue front))[j]?) ∧
      ∀ j, (toArray (follow parent.toValue front)).length ≤ j → j < i →
        new[j]? = some (some .null)

theorem isFor_put (v : QJsonValue) (k : Key) (path : List Key) (w : QJsonValue) :
    IsFor (put v (k :: path) w) k = true := by
  cases k <;> rfl

theorem follow_put_array (v : QJsonValue) (front tail : List Key) (i : ℕ) (w : Json) :
    ∃ x : QJsonValue, follow (put v (front ++ .index i :: tail) (some w)) front =
      some (.array ((padded (toArray (follow v front)) i).set i x)) := by
  rw [follow_put_cons]
  exact ⟨_, rfl⟩

theorem read_put_of_ne {v : QJsonValue} {front : List Key} {k k' : Key} (differ : k ≠ k')
    (container : IsFor (follow v front) k = true) (had : Has (follow v front) k' = true)
    (tail tail' : List Key) (w : Json) :
    read (put v (front ++ k :: tail) (some w)) (front ++ k' :: tail') =
      read v (front ++ k' :: tail') := by
  have node : follow (put v (front ++ k :: tail) (some w)) front =
      write (follow v front) k (put (valueAt (follow v front) k) tail (some w)) := by
    rw [follow_put_cons, put]
  have child : subscript (follow (put v (front ++ k :: tail) (some w)) front) k' =
      subscript (follow v front) k' := by
    rw [node]
    exact subscript_eq_of_valueAt (valueAt_write_of_ne differ container had _)
  have split : ∀ u, read u (front ++ k' :: tail') = read (subscript (follow u front) k') tail' := by
    intro u
    rw [read_append, read_congr (sameInside_read u u ⟨rfl, rfl⟩ front), read_cons]
  rw [split, split, child]

/-- The lens laws hold for every parent and every path that starts with the parent's kind of key. -/
theorem SetValuePath_lensLaws (parent : Parent) (k : Key) (ks : List Key)
    (fits : IsFor parent.toValue k = true)
    (small : ∀ key ∈ k :: ks, key.Below (2 ^ 31 - 1)) : LensLaws parent (k :: ks) := by
  have inside : ∀ key ∈ k :: ks, key.Below (2 ^ 31) := fun key member =>
    (small key member).mono (by omega)
  have written : ∀ t, (SetValuePath parent t (ofKeys (k :: ks))).toValue =
      put parent.toValue (k :: ks) t := by
    intro t
    rw [toValue_SetValuePath fits, map_stored_of_below inside]
  constructor
  · intro v defaultValue
    have reached := read_of_follow (follow_put parent.toValue (k :: ks) v)
    rw [GetValuePath_eq_read, map_stored_of_below inside, written, reached, Option.some_or]
  · intro v w
    have still : IsFor (SetValuePath parent (some v) (ofKeys (k :: ks))).toValue k = true := by
      rw [written]
      exact isFor_put parent.toValue k ks (some v)
    apply toValue_injective
    rw [toValue_SetValuePath still, map_stored_of_below inside, written, written, put_put]
  · intro resolves defaultValue
    obtain ⟨j, reached⟩ := (resolves_iff parent.toValue (k :: ks)).mp resolves
    have current : GetValuePath parent.toValue (ofKeys (k :: ks)) defaultValue = some j := by
      rw [GetValuePath_eq_read, map_stored_of_below inside, read_of_follow reached, Option.some_or]
    apply toValue_injective
    rw [current, written, put_follow reached]
  · intro v front tail tail' c c' split differ container had below defaultValue
    have belowInt : ∀ key ∈ front ++ c' :: tail', key.Below (2 ^ 31) := fun key member =>
      (below key member).mono (by omega)
    have unchanged := read_put_of_ne differ container had tail tail' v
    rw [← split] at unchanged
    rw [GetValuePath_eq_read, GetValuePath_eq_read, map_stored_of_below belowInt, written, unchanged]
  · intro v front tail i split
    obtain ⟨x, node⟩ := follow_put_array parent.toValue front tail i v
    rw [← split] at node
    generalize toArray (follow parent.toValue front) = old at node ⊢
    refine ⟨(padded old i).set i x, ?_, ?_, ?_, ?_⟩
    · rw [written, node]
    · rw [List.length_set, length_padded]
    · intro j oldSlot other
      rw [List.getElem?_set_ne other.symm, getElem?_padded_old oldSlot]
    · intro j newSlot below
      have other : i ≠ j := by omega
      rw [List.getElem?_set_ne other, getElem?_padded_new newSlot (by omega)]

/-- An object with a short array, written past its end. -/
theorem short_array_lensLaws :
    LensLaws (.object (KeyMap.set ∅ "a" (.array [some (.bool true)]))) [.name "a", .index 2] :=
  SetValuePath_lensLaws _ (.name "a") [.index 2] rfl (by simp [Key.Below])

end QJsonIO

end QvPlugin.Utils
