import QvPlugin.Common.SafeType
import QvPlugin.Utils.SetValue

/-!
The write-back of `SetValue(parent, t, path)`. The template admits every class derived from the
three JSON types, and its last statement dispatches on the exact type of the parent.
-/

set_option autoImplicit false
set_option relaxedAutoImplicit false

namespace QvPlugin.Utils

open Lib Qt Common

namespace QJsonIO

open QJsonIOPath (ofKeys step ofKeys_eq_map stored)

/-- The three classes that the constraint of `SetValue` names. -/
inductive ParentClass where
  | QJsonObject
  | QJsonArray
  | QJsonValue
  deriving DecidableEq

def ParentClass.Document : ParentClass → Type
  | .QJsonObject => Qt.QJsonObject
  | .QJsonArray => Qt.QJsonArray
  | .QJsonValue => Qt.QJsonValue

def ParentClass.toValue : (base : ParentClass) → base.Document → Qt.QJsonValue
  | .QJsonObject, o => some (.object o)
  | .QJsonArray, a => some (.array a)
  | .QJsonValue, v => v

/-- A `parent_type` that the constraint admits: one of the classes, or a class derived from it. -/
structure ParentType where
  base : ParentClass
  derived : Bool
  deriving DecidableEq

/-- The settings that `DeclareSafeJson` declares derive from `QJsonObject`. -/
def ParentType.safeJson (_tag : SafeJsonTag) : ParentType := ⟨.QJsonObject, true⟩

/-- `SetValue(parent, t, path)` for a parent of any admitted type. `none` is `Q_UNREACHABLE`. -/
def SetValueTyped (type : ParentType) (parent : type.base.Document) (t : Qt.QJsonValue)
    (path : QJsonIOPath) : Option type.base.Document :=
  let _stack := (path.foldl prepend ([], type.base.toValue parent)).1
  let lastNode := _stack.foldl rebuild t
  match type with
  | ⟨.QJsonObject, false⟩ => some (toObject lastNode)
  | ⟨.QJsonArray, false⟩ => some (toArray lastNode)
  | _ => none

def plainCopy (v : Qt.QJsonValue) : Parent :=
  if isArray v then .array (toArray v) else .object (toObject v)

/-- The call returns, and leaves what it leaves in a plain copy of the parent. -/
def WritesBack (type : ParentType) (parent : type.base.Document) (t : Qt.QJsonValue)
    (path : QJsonIOPath) : Prop :=
  ∃ result, SetValueTyped type parent t path = some result ∧
    type.base.toValue result =
      (SetValuePath (plainCopy (type.base.toValue parent)) t path).toValue

/-- A parent of any admitted type is written back exactly when its type is `QJsonObject` or
`QJsonArray` itself. -/
theorem writesBack_iff (type : ParentType) (parent : type.base.Document) (t : Qt.QJsonValue)
    (path : QJsonIOPath) : WritesBack type parent t path ↔
      type = ⟨.QJsonObject, false⟩ ∨ type = ⟨.QJsonArray, false⟩ := by
  obtain ⟨base, derived⟩ := type
  constructor
  · rintro ⟨result, returned, -⟩
    cases derived with
    | true => cases base <;> exact nomatch returned
    | false =>
        cases base with
        | QJsonObject => exact Or.inl rfl
        | QJsonArray => exact Or.inr rfl
        | QJsonValue => exact nomatch returned
  · rintro (exact | exact)
    · cases exact
      exact ⟨_, rfl, rfl⟩
    · cases exact
      exact ⟨_, rfl, rfl⟩

/-- Writing a port into protocol settings reaches `Q_UNREACHABLE`. -/
theorem protocol_settings_not_written :
    ¬ ∀ (type : ParentType) (parent : type.base.Document) (t : Qt.QJsonValue) (current : Key)
      (other : List Key), IsFor (type.base.toValue parent) current = true →
        WritesBack type parent t (ofKeys (current :: other)) := by
  intro claim
  obtain ⟨result, returned, -⟩ := claim (.safeJson .IOProtocolSettings) (∅ : Qt.QJsonObject)
    (some (.number 443)) (.name "port") [] rfl
  exact nomatch returned

section Mismatch

/-- The entries at the top of the parent are all there still, with their values. -/
def KeepsEntries : Parent → Parent → Prop
  | .object o, .object o' => ∀ (k : QString) (j : Json), o.lookup k = some j → o'.lookup k = some j
  | .array a, .array a' => ∀ (i : ℕ) (x : Qt.QJsonValue), a[i]? = some x → a'[i]? = some x
  | _, _ => False

def emptied : Parent → Parent
  | .object _ => .object ∅
  | .array _ => .array []

/-- A first step of the other kind rebuilds a root of the other kind, which is nothing as a
container of the parent's own kind. -/
theorem SetValuePath_of_mismatch {parent : Parent} {current : Key}
    (mismatch : IsFor parent.toValue current = false) (other : List Key) (t : Qt.QJsonValue) :
    SetValuePath parent t (ofKeys (current :: other)) = emptied parent := by
  rw [SetValuePath_eq_put]
  cases parent with
  | object o =>
      cases current with
      | index i => rfl
      | name s => exact nomatch mismatch
  | array a =>
      cases current with
      | index i => exact nomatch mismatch
      | name s => rfl

/-- A path whose first step is of the wrong kind keeps the entries of an empty parent only. -/
theorem mismatch_keepsEntries_iff (parent : Parent) (current : Key) (other : List Key)
    (mismatch : IsFor parent.toValue current = false) (t : Qt.QJsonValue) :
    KeepsEntries parent (SetValuePath parent t (ofKeys (current :: other))) ↔
      parent = emptied parent := by
  rw [SetValuePath_of_mismatch mismatch]
  cases parent with
  | object o =>
      constructor
      · intro keeps
        have empty : o = ∅ := by
          ext1 k
          rw [KeyMap.lookup_empty, Option.eq_none_iff_forall_ne_some]
          intro j held
          have kept : (∅ : Qt.QJsonObject).lookup k = some j := keeps k j held
          rw [KeyMap.lookup_empty] at kept
          exact nomatch kept
        exact congrArg Parent.object empty
      · intro empty
        rw [← empty]
        exact fun _ _ held => held
  | array a =>
      constructor
      · intro keeps
        have empty : a = [] := by
          apply List.eq_nil_iff_forall_not_mem.mpr
          intro x member
          obtain ⟨i, held⟩ := List.mem_iff_getElem?.mp member
          exact nomatch keeps i x held
        exact congrArg Parent.array empty
      · intro empty
        rw [← empty]
        exact fun _ _ held => held

/-- An empty object has nothing to lose. -/
theorem empty_object_keepsEntries :
    KeepsEntries (.object ∅) (SetValuePath (.object ∅) (some .null) (ofKeys [.index 0])) :=
  (mismatch_keepsEntries_iff (.object ∅) (.index 0) [] rfl (some .null)).mpr rfl

/-- `{"a": 1}` written at 0 comes back empty. -/
theorem object_wiped_by_index :
    ¬ ∀ (parent : Parent) (current : Key) (other : List Key),
      IsFor parent.toValue current = false → ∀ t : Qt.QJsonValue,
        KeepsEntries parent (SetValuePath parent t (ofKeys (current :: other))) := by
  intro claim
  have keeps := claim (.object (KeyMap.set ∅ "a" (.number 1))) (.index 0) [] rfl (some .null)
  have lost : (∅ : Qt.QJsonObject).lookup "a" = some (.number 1) := keeps "a" (.number 1) rfl
  rw [KeyMap.lookup_empty] at lost
  exact nomatch lost

end Mismatch

end QJsonIO

end QvPlugin.Utils
