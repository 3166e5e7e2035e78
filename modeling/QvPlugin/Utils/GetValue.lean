import QvPlugin.Utils.QJsonIO

/-!
What the three forms of `GetValue` read. They agree up to the last step, where the mutable
`operator[]` of an object turns a missing key into Null.
-/

set_option autoImplicit false
set_option relaxedAutoImplicit false

namespace QvPlugin.Utils

open Lib Qt

namespace QJsonIOPath

/-- The step as `AppendPath` stores it. -/
def step : Key → QJsonIONodeType
  | .index index => (number index, .JSONIO_MODE_ARRAY)
  | .name key => (key, .JSONIO_MODE_OBJECT)

theorem AppendPath_eq (path : QJsonIOPath) (k : Key) : AppendPath path k = path ++ [step k] := by
  cases k <;> rfl

private theorem foldl_AppendPath (path : QJsonIOPath) (keys : List Key) :
    keys.foldl AppendPath path = path ++ keys.map step := by
  induction keys generalizing path with
  | nil => exact (List.append_nil path).symm
  | cons k keys ih =>
      rw [List.foldl_cons, ih, AppendPath_eq, List.append_assoc, List.map_cons]
      rfl

theorem ofKeys_eq_map (keys : List Key) : ofKeys keys = keys.map step := foldl_AppendPath [] keys

end QJsonIOPath

/-- A text of an index that fits an `int` is read back as that index, and any other as 0. -/
theorem textToInt_number (i : ℕ) : textToInt (number i) = if i < 2 ^ 31 then i else 0 := by
  have digits : (number i).toList = Nat.toDigits 10 i := Nat.toList_repr
  have nonempty : Nat.toDigits 10 i ≠ [] := Nat.toDigits_ne_nil
  have decimal : (Nat.toDigits 10 i).all Char.isDigit = true := by
    rw [List.all_eq_true]
    intro c member
    exact Nat.isDigit_of_mem_toDigits (by omega) (by omega) member
  have value : Nat.ofDigitChars 10 (Nat.toDigits 10 i) 0 = i := Nat.ofDigitChars_ten_toDigits
  unfold textToInt
  simp only [digits, value]
  by_cases small : i < 2 ^ 31
  · rw [if_pos small]
    exact if_pos ⟨nonempty, decimal, small⟩
  · rw [if_neg small]
    exact if_neg fun fits => small fits.2.2

namespace QJsonIOPath

/-- The step that both loops read back from what `AppendPath` stored. -/
def stored : Key → Key
  | .index index => .index (textToInt (number index))
  | .name key => .name key

theorem stored_of_below {k : Key} (small : k.Below (2 ^ 31)) : stored k = k := by
  cases k with
  | index i =>
      have fits : i < 2 ^ 31 := small
      rw [stored, textToInt_number, if_pos fits]
  | name s => rfl

theorem map_stored_of_below {keys : List Key} (small : ∀ k ∈ keys, k.Below (2 ^ 31)) :
    keys.map stored = keys := by
  have same : ∀ k ∈ keys, stored k = id k := fun k member => stored_of_below (small k member)
  rw [List.map_congr_left same, List.map_id]

end QJsonIOPath

namespace QJsonIO

open QJsonIOPath (ofKeys step ofKeys_eq_map stored map_stored_of_below)

section Subscript

theorem subscript_name (v : QJsonValue) (s : QString) :
    subscript v (.name s) = some ((valueAt v (.name s)).getD .null) :=
  QJsonObject.subscript_eq (toObject v) s

theorem subscript_eq_of_valueAt {v w : QJsonValue} {k : Key} (same : valueAt v k = valueAt w k) :
    subscript v k = subscript w k := by
  cases k with
  | index i => exact same
  | name s => rw [subscript_name, subscript_name, same]

theorem subscript_congr {v w : QJsonValue} (same : SameInside v w) (k : Key) :
    subscript v k = subscript w k :=
  subscript_eq_of_valueAt (valueAt_congr same k)

theorem sameInside_subscript (v : QJsonValue) (k : Key) :
    SameInside (subscript v k) (valueAt v k) := by
  cases k with
  | index i => exact ⟨rfl, rfl⟩
  | name s =>
      rw [subscript_name]
      cases valueAt v (.name s) with
      | none => exact ⟨rfl, rfl⟩
      | some j => exact ⟨rfl, rfl⟩

theorem subscript_eq_valueAt_iff (v : QJsonValue) (k : Key) :
    subscript v k = valueAt v k ↔ (∃ i, k = .index i) ∨ ∃ j, valueAt v k = some j := by
  cases k with
  | index i => exact ⟨fun _ => Or.inl ⟨i, rfl⟩, fun _ => rfl⟩
  | name s =>
      rw [subscript_name]
      constructor
      · intro same
        exact Or.inr ⟨_, same.symm⟩
      · rintro (⟨i, absurdKey⟩ | ⟨j, present⟩)
        · exact nomatch absurdKey
        · rw [present, Option.getD_some]

end Subscript

section Reads

def read (v : QJsonValue) (keys : List Key) : QJsonValue := keys.foldl subscript v

theorem read_cons (v : QJsonValue) (k : Key) (keys : List Key) :
    read v (k :: keys) = read (subscript v k) keys := rfl

theorem read_append (v : QJsonValue) (keys keys' : List Key) :
    read v (keys ++ keys') = read (read v keys) keys' := List.foldl_append

theorem read_congr {v w : QJsonValue} (same : SameInside v w) (k : Key) (keys : List Key) :
    read v (k :: keys) = read w (k :: keys) := by
  rw [read_cons, read_cons, subscript_congr same]

theorem sameInside_read (v w : QJsonValue) (same : SameInside v w) (keys : List Key) :
    SameInside (read v keys) (follow w keys) := by
  induction keys generalizing v w with
  | nil => exact same
  | cons k keys ih =>
      have next : SameInside (subscript v k) (valueAt w k) := by
        rw [subscript_congr same k]
        exact sameInside_subscript w k
      exact ih _ _ next

theorem read_concat (v : QJsonValue) (keys : List Key) (last : Key) :
    read v (keys ++ [last]) = subscript (follow v keys) last := by
  have inside := sameInside_read v v ⟨rfl, rfl⟩ keys
  rw [read_append]
  exact subscript_congr inside last

theorem read_of_follow {v : QJsonValue} {keys : List Key} {j : Json}
    (reached : follow v keys = some j) : read v keys = some j := by
  rcases List.eq_nil_or_concat keys with empty | ⟨front, last, split⟩
  · rw [empty] at reached ⊢
    exact reached
  · rw [split, List.concat_eq_append] at reached ⊢
    rw [follow_append] at reached
    have defined : ∃ j, valueAt (follow v front) last = some j := ⟨j, reached⟩
    rw [read_concat, (subscript_eq_valueAt_iff _ _).mpr (Or.inr defined)]
    exact reached

end Reads

section Forms

theorem GetValue_eq_read (parent : QJsonValue) (current : Key) (other : List Key) :
    GetValue parent current other = read parent (current :: other) := by
  induction other generalizing parent current with
  | nil => rfl
  | cons next other ih => exact ih (subscript parent current) next

theorem descend_step (v : QJsonValue) (k : Key) : descend v (step k) = subscript v (stored k) := by
  cases k <;> rfl

theorem foldl_descend (v : QJsonValue) (keys : List Key) :
    (keys.map step).foldl descend v = read v (keys.map stored) := by
  induction keys generalizing v with
  | nil => rfl
  | cons k keys ih =>
      rw [List.map_cons, List.foldl_cons, descend_step, ih, List.map_cons, read_cons]

theorem GetValuePath_eq_read (v : QJsonValue) (keys : List Key) (defaultValue : QJsonValue) :
    GetValuePath v (ofKeys keys) defaultValue = (read v (keys.map stored)).or defaultValue := by
  unfold GetValuePath
  rw [ofKeys_eq_map, foldl_descend]
  cases read v (keys.map stored) <;> rfl

theorem GetValueTuple_eq_follow (v : QJsonValue) (keys : List Key) (defaultValue : QJsonValue) :
    GetValueTuple v keys defaultValue = (follow v keys).or defaultValue := by
  have fold : keys.foldl (fun value arg => valueAt value arg) v = follow v keys := by
    induction keys generalizing v with
    | nil => rfl
    | cons k keys ih => exact ih (valueAt v k)
  unfold GetValueTuple
  rw [fold]
  cases follow v keys <;> rfl

/-- The variadic form and the path form read the same, missing steps included. -/
theorem GetValue_eq_GetValuePath (v : QJsonValue) (current : Key) (other : List Key)
    (small : ∀ k ∈ current :: other, k.Below (2 ^ 31)) :
    GetValue v current other = GetValuePath v (ofKeys (current :: other)) none := by
  rw [GetValue_eq_read, GetValuePath_eq_read, map_stored_of_below small, Option.or_none]

/-- The tuple form agrees with them unless the last key is missing from its object. -/
theorem read_eq_follow_iff (v : QJsonValue) {keys : List Key} (nonempty : keys ≠ []) :
    read v keys = follow v keys ↔
      (∃ i, keys.getLast? = some (.index i)) ∨ Resolves v keys := by
  obtain ⟨front, last, split⟩ := (List.eq_nil_or_concat keys).resolve_left nonempty
  rw [split, List.concat_eq_append, read_concat, follow_append, follow_cons, follow_nil,
    subscript_eq_valueAt_iff, resolves_iff, follow_append, follow_cons, follow_nil]
  simp

end Forms

/-- The three forms of `GetValue` agree exactly when the last key is an index, which they all read
as Undefined when it is missing, or the whole path resolves. -/
theorem GetValue_forms_agree_iff (v : QJsonValue) (k₁ k₂ : Key) (ks : List Key)
    (small : ∀ k ∈ k₁ :: k₂ :: ks, k.Below (2 ^ 31)) :
    (GetValue v k₁ (k₂ :: ks) = GetValueTuple v (k₁ :: k₂ :: ks) none ∧
        GetValueTuple v (k₁ :: k₂ :: ks) none = GetValuePath v (ofKeys (k₁ :: k₂ :: ks)) none) ↔
      (∃ i, (k₁ :: k₂ :: ks).getLast? = some (.index i)) ∨ Resolves v (k₁ :: k₂ :: ks) := by
  have path := GetValue_eq_GetValuePath v k₁ (k₂ :: ks) small
  have tuple := GetValueTuple_eq_follow v (k₁ :: k₂ :: ks) none
  rw [Option.or_none] at tuple
  rw [← path, GetValue_eq_read, tuple, ← read_eq_follow_iff v (List.cons_ne_nil k₁ (k₂ :: ks))]
  exact ⟨fun agree => agree.1, fun agree => ⟨agree, agree.symm⟩⟩

/-- `{"a": [1]}` read at `a`, 0. -/
theorem element_forms_agree :
    let v : QJsonValue := some (.object (KeyMap.set ∅ "a" (.array [some (.number 1)])))
    GetValue v (.name "a") [.index 0] = GetValueTuple v [.name "a", .index 0] none ∧
      GetValueTuple v [.name "a", .index 0] none =
        GetValuePath v (ofKeys [.name "a", .index 0]) none := by
  intro v
  exact (GetValue_forms_agree_iff v (.name "a") (.index 0) [] (by simp [Key.Below])).mpr
    (Or.inl ⟨0, rfl⟩)

/-- An empty object read at `a`, `b`: Null, Undefined and Null. -/
theorem missing_key_forms_differ :
    ¬ ∀ (v : QJsonValue) (k₁ k₂ : Key) (ks : List Key),
      (∀ k ∈ k₁ :: k₂ :: ks, k.Below (2 ^ 31)) →
        GetValue v k₁ (k₂ :: ks) = GetValueTuple v (k₁ :: k₂ :: ks) none ∧
          GetValueTuple v (k₁ :: k₂ :: ks) none =
            GetValuePath v (ofKeys (k₁ :: k₂ :: ks)) none := by
  intro claim
  have agree := claim (some (.object ∅)) (.name "a") (.name "b") [] (by simp [Key.Below])
  have differ : GetValue (some (.object ∅)) (.name "a") [.name "b"] ≠
      GetValueTuple (some (.object ∅)) [.name "a", .name "b"] none := by decide
  exact differ agree.1

end QJsonIO

end QvPlugin.Utils
