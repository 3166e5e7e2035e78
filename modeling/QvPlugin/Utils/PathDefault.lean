import QvPlugin.Utils.GetValue

/-!
The default of `GetValue(parent, path, defaultValue)`. The last subscript decides what comes back
from a path that leads nowhere: an index past the end is Undefined and gives way to the default,
while a missing key is created as Null by the mutable `operator[]` and hides it.
-/

set_option autoImplicit false
set_option relaxedAutoImplicit false

namespace QvPlugin.Utils

open Lib Qt

namespace QJsonIO

open QJsonIOPath (ofKeys stored)

def atMissing (keys : List Key) (defaultValue : QJsonValue) : QJsonValue :=
  match keys.getLast? with
  | some (.name _) => some .null
  | _ => defaultValue

/-- The element that the path leads to, and the default where it leads to none. -/
def GivesDefault (v : QJsonValue) (keys : List Key) (defaultValue : QJsonValue) : Prop :=
  (Resolves v keys → GetValuePath v (ofKeys keys) defaultValue = follow v keys) ∧
    (¬Resolves v keys → GetValuePath v (ofKeys keys) defaultValue = defaultValue)

/-- The path resolves, or it is the last index that is missing, or the default is the Null that a
missing key is created as. -/
def DefaultFits (v : QJsonValue) (keys : List Key) (defaultValue : QJsonValue) : Prop :=
  Resolves v keys ∨ (∃ i, keys.getLast? = some (.index i)) ∨ defaultValue = some .null

/-- An index that no `int` holds is read as 0, and what is found on that way happens to be what
the path as written calls for. -/
def AliasFits (v : QJsonValue) (keys : List Key) (defaultValue : QJsonValue) : Prop :=
  (¬Resolves v keys ∧ follow v (keys.map stored) = defaultValue) ∨
    (¬Resolves v (keys.map stored) ∧ follow v keys = atMissing keys defaultValue)

theorem not_resolves_iff (v : QJsonValue) (keys : List Key) :
    ¬Resolves v keys ↔ follow v keys = none := by
  rw [resolves_iff, Option.eq_none_iff_forall_ne_some]
  exact not_exists

/-- The path form follows the path as it was stored. -/
theorem GetValuePath_eq_follow_or (v : QJsonValue) {keys : List Key} (nonempty : keys ≠ [])
    (defaultValue : QJsonValue) : GetValuePath v (ofKeys keys) defaultValue =
      (follow v (keys.map stored)).or (atMissing keys defaultValue) := by
  obtain ⟨front, last, rfl⟩ := (List.eq_nil_or_concat keys).resolve_left nonempty
  have reached : follow v ((front.concat last).map stored) =
      valueAt (follow v (front.map stored)) (stored last) := by
    rw [List.concat_eq_append, List.map_append, follow_append]
    rfl
  have whole : read v ((front.concat last).map stored) =
      subscript (follow v (front.map stored)) (stored last) := by
    rw [List.concat_eq_append, List.map_append]
    exact read_concat v (front.map stored) (stored last)
  rw [GetValuePath_eq_read, whole, reached]
  unfold atMissing
  rw [List.concat_eq_append, List.getLast?_concat]
  cases last with
  | index i => rfl
  | name s =>
      show (subscript _ (.name s)).or defaultValue = (valueAt _ (.name s)).or (some .null)
      rw [subscript_name]
      cases valueAt (follow v (front.map stored)) (.name s) <;> rfl

theorem atMissing_eq_iff {keys : List Key} (nonempty : keys ≠ []) (defaultValue : QJsonValue) :
    atMissing keys defaultValue = defaultValue ↔
      (∃ i, keys.getLast? = some (.index i)) ∨ defaultValue = some .null := by
  obtain ⟨front, last, rfl⟩ := (List.eq_nil_or_concat keys).resolve_left nonempty
  unfold atMissing
  rw [List.concat_eq_append, List.getLast?_concat]
  cases last with
  | index i => exact ⟨fun _ => Or.inl ⟨i, rfl⟩, fun _ => rfl⟩
  | name s =>
      constructor
      · intro null
        exact Or.inr null.symm
      · rintro (⟨i, same⟩ | null)
        · exact nomatch same
        · exact null.symm

/-- The default comes back exactly where it should when the path is read as written and the missing
step is no key at its end; where an index is read as 0 instead, only by coincidence. -/
theorem givesDefault_iff (v : QJsonValue) (keys : List Key) (nonempty : keys ≠ [])
    (defaultValue : QJsonValue) : GivesDefault v keys defaultValue ↔
      (follow v (keys.map stored) = follow v keys ∧ DefaultFits v keys defaultValue) ∨
        (follow v (keys.map stored) ≠ follow v keys ∧ AliasFits v keys defaultValue) := by
  unfold GivesDefault DefaultFits AliasFits
  rw [GetValuePath_eq_follow_or v nonempty, ← atMissing_eq_iff nonempty, not_resolves_iff,
    not_resolves_iff, resolves_iff]
  generalize atMissing keys defaultValue = missing
  cases follow v keys with
  | none =>
      cases follow v (keys.map stored) with
      | none => simp
      | some y => simp
  | some x =>
      cases follow v (keys.map stored) with
      | none => simp [eq_comm]
      | some y => simp

/-- A Null that is stored under `a` is not replaced by the default. -/
theorem stored_null_kept :
    GivesDefault (some (.object (KeyMap.set ∅ "a" .null))) [.name "a"] (some (.number 7)) := by
  have resolves : Resolves (some (.object (KeyMap.set ∅ "a" .null))) [.name "a"] :=
    (resolves_iff _ _).mpr ⟨.null, by decide⟩
  exact (givesDefault_iff _ [.name "a"] (List.cons_ne_nil _ _) _).mpr
    (Or.inl ⟨rfl, Or.inl resolves⟩)

/-- `a`, `b` in an empty object with the default 7: Null comes back. -/
theorem missing_key_hides_default :
    ¬ ∀ (v : QJsonValue) (keys : List Key), keys ≠ [] → ∀ defaultValue : QJsonValue,
      GivesDefault v keys defaultValue := by
  intro claim
  have whole := claim (some (.object ∅)) [.name "a", .name "b"] (List.cons_ne_nil _ _)
    (some (.number 7))
  have missing : ¬Resolves (some (.object ∅)) [.name "a", .name "b"] :=
    (not_resolves_iff _ _).mpr (by decide)
  have null : GetValuePath (some (.object ∅)) (ofKeys [.name "a", .name "b"]) (some (.number 7)) =
      some .null := by decide
  have seven := whole.2 missing
  rw [null] at seven
  exact nomatch seven

end QJsonIO

end QvPlugin.Utils
