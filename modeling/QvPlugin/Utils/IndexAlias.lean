import QvPlugin.Utils.PathDefault
import QvPlugin.Utils.SetValue

/-!
Which element an index step addresses. The index is stored as decimal text and read back by
`QString::toInt`, so an index from 2 ^ 31 on, a wrapped negative one included, comes back as 0.
-/

set_option autoImplicit false
set_option relaxedAutoImplicit false

namespace QvPlugin.Utils

open Lib Qt

namespace QJsonIO

open QJsonIOPath (ofKeys stored)

/-- The step `i` stands for element `i` and no other, wherever it is in a path. -/
structure Addresses (i : ℕ) : Prop where
  /-- A read goes on from element `i`, or from Undefined where the array has none. -/
  read : ∀ (v : QJsonValue) (front tail : List Key) (defaultValue : QJsonValue) (a : QJsonArray),
    GetValuePath v (ofKeys front) none = some (.array a) →
      GetValuePath v (ofKeys (front ++ .index i :: tail)) defaultValue =
        GetValuePath (a[i]?).join (ofKeys tail) defaultValue
  /-- A write keeps every other element that was there. -/
  write : ∀ (parent : Parent) (front tail : List Key) (t : QJsonValue) (a : QJsonArray),
    GetValuePath parent.toValue (ofKeys front) none = some (.array a) →
      ∃ a' : QJsonArray,
        GetValuePath (SetValuePath parent t (ofKeys (front ++ .index i :: tail))).toValue
            (ofKeys front) none = some (.array a') ∧
          ∀ i' x, i' ≠ i → a[i']? = some x → a'[i']? = some x

theorem follow_of_array {v : QJsonValue} {keys : List Key} {a : QJsonArray}
    (array : GetValuePath v (ofKeys keys) none = some (.array a)) :
    follow v (keys.map stored) = some (.array a) := by
  cases keys with
  | nil =>
      rw [GetValuePath_eq_read, Option.or_none] at array
      exact array
  | cons k keys =>
      rw [GetValuePath_eq_follow_or v (List.cons_ne_nil k keys)] at array
      rcases Option.or_eq_some_iff.mp array with reached | ⟨-, missing⟩
      · exact reached
      · unfold atMissing at missing
        split at missing
        · exact nomatch missing
        · exact nomatch missing

theorem isFor_of_follow {v : QJsonValue} {k : Key} {path : List Key} {j : Json}
    (reached : follow v (k :: path) = some j) : IsFor v k = true := by
  rw [follow_cons] at reached
  obtain ⟨x, child⟩ := root_of_follow reached
  cases k with
  | index i =>
      rw [eq_array_of_element child]
      rfl
  | name s =>
      rw [eq_object_of_lookup child]
      rfl

theorem isFor_stored (v : QJsonValue) (k : Key) : IsFor v (stored k) = IsFor v k := by
  cases k <;> rfl

private theorem toValue_SetValuePath_of_array {parent : Parent} {front : List Key} {a : QJsonArray}
    (array : follow parent.toValue (front.map stored) = some (.array a)) (i : ℕ) (tail : List Key)
    (t : QJsonValue) :
    (SetValuePath parent t (ofKeys (front ++ .index i :: tail))).toValue =
      put parent.toValue ((front ++ .index i :: tail).map stored) t := by
  cases front with
  | nil =>
      have fits : IsFor parent.toValue (.index i) = true := by
        have root : parent.toValue = some (.array a) := array
        rw [root]
        rfl
      exact toValue_SetValuePath fits tail t
  | cons k front =>
      have fits : IsFor parent.toValue k = true := by
        rw [← isFor_stored]
        exact isFor_of_follow array
      exact toValue_SetValuePath fits (front ++ .index i :: tail) t

private theorem large_index_reads_first {i : ℕ} (large : ¬i < 2 ^ 31) :
    GetValuePath (some (.array [some (.bool true)])) (ofKeys [.index i]) none =
      some (.bool true) := by
  rw [GetValuePath_eq_read, List.map_cons, stored, textToInt_number, if_neg large]
  rfl

/-- An index step addresses its element and no other exactly when the index fits an `int`. -/
theorem addresses_iff (i : ℕ) : Addresses i ↔ i < 2 ^ 31 := by
  constructor
  · intro addresses
    by_contra large
    have first := large_index_reads_first large
    have own := addresses.read (some (.array [some (.bool true)])) [] [] none _ rfl
    have past : ([some (Json.bool true)] : QJsonArray)[i]? = none :=
      List.getElem?_eq_none (by simp only [List.length_singleton]; omega)
    rw [List.nil_append, first, past] at own
    exact nomatch own
  · intro small
    have back : stored (.index i) = .index i := by
      rw [stored, textToInt_number, if_pos small]
    constructor
    · intro v front tail defaultValue a array
      have reached := read_of_follow (follow_of_array array)
      rw [GetValuePath_eq_read, GetValuePath_eq_read, List.map_append, List.map_cons, back,
        QJsonIO.read_append, reached, read_cons]
      rfl
    · intro parent front tail t a array
      have node := follow_of_array array
      refine ⟨(padded a i).set i (put (a[i]?).join (tail.map stored) t), ?_, ?_⟩
      · have written : follow (SetValuePath parent t (ofKeys (front ++ .index i :: tail))).toValue
            (front.map stored) =
              some (.array ((padded a i).set i (put (a[i]?).join (tail.map stored) t))) := by
          rw [toValue_SetValuePath_of_array node, List.map_append, List.map_cons, back,
            follow_put_cons, node]
          rfl
        rw [GetValuePath_eq_read, read_of_follow written, Option.some_or]
      · intro i' x other held
        have old : i' < a.length := (List.getElem?_eq_some_iff.mp held).1
        rw [List.getElem?_set_ne other.symm, getElem?_padded_old old, held]

/-- 2 ^ 31 on an array of one: its only element is read as element 2 ^ 31. -/
theorem large_index_aliases : ¬ ∀ i : ℕ, i < 2 ^ 64 → Addresses i := by
  intro claim
  have addresses := claim (2 ^ 31) (by decide)
  have large : ¬(2 ^ 31 : ℕ) < 2 ^ 31 := lt_irrefl _
  have first := large_index_reads_first large
  have own := addresses.read (some (.array [some (.bool true)])) [] [] none _ rfl
  have past : ([some (Json.bool true)] : QJsonArray)[2 ^ 31]? = none :=
    List.getElem?_eq_none (by decide)
  rw [List.nil_append, first, past] at own
  exact nomatch own

end QJsonIO

end QvPlugin.Utils
