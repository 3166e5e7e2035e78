import Mathlib.Data.List.FinRange
import QvPlugin.Qt.Json

set_option autoImplicit false
set_option relaxedAutoImplicit false

namespace QvPlugin.Utils

open Lib Qt

/-- One round of the loop of `MergeJson`, for the entry `key`/`value` of the other object.
`recurse` is `MergeJson(·, value)`. -/
def mergeEntry (src : QJsonObject) (key : QString) (value : Json)
    (recurse : QJsonObject → QJsonObject) : QJsonObject :=
  if !src.contains key then
    QJsonObject.assign src key (some value)
  else if isObject (src.lookup key) && isObject (some value) then
    QJsonObject.assign src key (some (.object (recurse (toObject (src.lookup key)))))
  else if isArray (src.lookup key) && isArray (some value) then
    QJsonObject.assign src key
      (some (.array ((toArray (some value)).foldl QJsonArray.append (toArray (src.lookup key)))))
  else src

/-- `MergeJson` with a defined value: only an object is merged. -/
def mergeInto : Json → QJsonObject → QJsonObject
  | .obj keys _ value, src =>
      (List.finRange keys.length).foldl
        (fun src it => mergeEntry src (keys.get it) (value it) (mergeInto (value it))) src
  | _, src => src

/-- `JsonStructHelper::MergeJson`. -/
def mergeJson (src : QJsonObject) : QJsonValue → QJsonObject
  | some other => mergeInto other src
  | none => src

def mergeValue : Option Json → Json → Json
  | none, new => new
  | some old, new =>
      if isObject (some old) && isObject (some new) then
        .object (mergeJson (toObject (some old)) (some new))
      else if isArray (some old) && isArray (some new) then
        .array ((toArray (some new)).foldl QJsonArray.append (toArray (some old)))
      else old

private theorem lookup_mergeEntry (src : QJsonObject) (key k : QString) (value : Json) :
    (mergeEntry src key value (mergeInto value)).lookup k =
      if k = key then some (mergeValue (src.lookup k) value) else src.lookup k := by
  by_cases same : k = key
  · subst same
    rw [if_pos rfl, mergeEntry, KeyMap.contains]
    cases held : src.lookup k with
    | none => simp [QJsonObject.lookup_assign, mergeValue]
    | some old =>
        rw [mergeValue, mergeJson]
        split_ifs <;> simp_all [QJsonObject.lookup_assign]
  · rw [if_neg same, mergeEntry]
    split_ifs <;> simp only [QJsonObject.lookup_assign, if_neg same]

/-- `MergeJson` key by key. -/
theorem lookup_mergeJson (src other : QJsonObject) (k : QString) :
    (mergeJson src (some (.object other))).lookup k =
      ((other.lookup k).map (mergeValue (src.lookup k))).or (src.lookup k) := by
  have loop : mergeJson src (some (.object other)) =
      other.entries.foldl (fun src e => mergeEntry src e.1 e.2 (mergeInto e.2)) src := by
    rw [mergeJson, Json.object, mergeInto, KeyMap.entries, List.ofFn_eq_map, List.foldl_map]
  rw [loop]
  exact KeyMap.lookup_foldl_of_step _ mergeValue
    (fun src e k => lookup_mergeEntry src e.1 k e.2) _ other.keys_nodup src k

theorem lookup_mergeJson_of_disjoint {src other : QJsonObject} {k : QString}
    (disjoint : src.lookup k = none ∨ other.lookup k = none) :
    (mergeJson src (some (.object other))).lookup k = (other.lookup k).or (src.lookup k) := by
  rw [lookup_mergeJson]
  rcases disjoint with absent | absent
  · rw [absent]
    cases other.lookup k <;> rfl
  · rw [absent]
    rfl

section Value

@[simp] theorem mergeValue_none (new : Json) : mergeValue none new = new := rfl

@[simp] theorem mergeValue_objects (o o' : QJsonObject) :
    mergeValue (some (.object o)) (.object o') =
      .object (mergeJson o (some (.object o'))) := rfl

@[simp] theorem mergeValue_arrays (a b : QJsonArray) :
    mergeValue (some (.array a)) (.array b) = .array (a ++ b.map QJsonArray.settled) := by
  rw [← QJsonArray.foldl_append]
  rfl

theorem mergeValue_clash {old new : Json}
    (objects : (isObject (some old) && isObject (some new)) = false)
    (arrays : (isArray (some old) && isArray (some new)) = false) :
    mergeValue (some old) new = old := by
  rw [mergeValue, objects, arrays]
  rfl

theorem mergeValue_cases {motive : Json → Json → Prop}
    (objects : ∀ o o', motive (.object o) (.object o'))
    (arrays : ∀ a b, motive (.array a) (.array b))
    (clash : ∀ old new, mergeValue (some old) new = old → motive old new) (old new : Json) :
    motive old new := by
  by_cases both : (isObject (some old) && isObject (some new)) = true
  · rw [Bool.and_eq_true] at both
    have left := Option.some.inj (eq_object_of_isObject both.1)
    have right := Option.some.inj (eq_object_of_isObject both.2)
    rw [left, right]
    exact objects _ _
  · by_cases lists : (isArray (some old) && isArray (some new)) = true
    · rw [Bool.and_eq_true] at lists
      have left := Option.some.inj (eq_array_of_isArray lists.1)
      have right := Option.some.inj (eq_array_of_isArray lists.2)
      rw [left, right]
      exact arrays _ _
    · rw [Bool.not_eq_true] at both lists
      exact clash old new (mergeValue_clash both lists)

end Value

end QvPlugin.Utils
