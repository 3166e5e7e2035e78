import QvPlugin.Utils.SetValue

/-!
The array subscripts of the path forms. `QJsonArray::operator[](i)` is only defined inside the
array, so here each loop of `QJsonIO` runs until it makes a call outside: `none` is that call.
-/

set_option autoImplicit false
set_option relaxedAutoImplicit false

namespace QvPlugin.Utils

open Lib Qt

namespace QJsonIO

open QJsonIOPath (ofKeys step ofKeys_eq_map)

/-- The mutable `QJsonArray::operator[](i)`, which requires `i < size()`. -/
def subscriptCall (a : QJsonArray) (i : ℕ) : Option QJsonValue :=
  if i < a.length then some (QJsonArray.subscript a i) else none

def assignCall (a : QJsonArray) (i : ℕ) (v : QJsonValue) : Option QJsonArray :=
  if i < a.length then some (QJsonArray.assign a i v) else none

/-- One round of the loop of `GetValue(parent, path)`, and of the downward loop of `SetValue`. -/
def descendCall (val : QJsonValue) : QJsonIONodeType → Option QJsonValue
  | (k, .JSONIO_MODE_ARRAY) => subscriptCall (toArray val) (textToInt k)
  | (k, .JSONIO_MODE_OBJECT) => some (QJsonObject.subscript (toObject val) k)

def getValueCalls (parent : QJsonValue) (path : QJsonIOPath) : Option QJsonValue :=
  path.foldlM descendCall parent

/-- One round of the downward loop of `SetValue(parent, t, path)`. -/
def prependCall (state : List (QJsonIONodeType × QJsonValue) × QJsonValue)
    (step : QJsonIONodeType) : Option (List (QJsonIONodeType × QJsonValue) × QJsonValue) :=
  (descendCall state.2 step).map fun next => ((step, state.2) :: state.1, next)

/-- One round of its upward loop, which pads first. -/
def rebuildCall (lastNode : QJsonValue) : QJsonIONodeType × QJsonValue → Option QJsonValue
  | ((key, .JSONIO_MODE_ARRAY), node) =>
      let index := textToInt key
      (assignCall (grow (toArray node) index) index lastNode).map fun a => some (.array a)
  | ((key, .JSONIO_MODE_OBJECT), node) =>
      some (some (.object (QJsonObject.assign (toObject node) key lastNode)))

def setValueCalls (parent t : QJsonValue) (path : QJsonIOPath) : Option QJsonValue :=
  (path.foldlM prependCall ([], parent)).bind fun state => state.1.foldlM rebuildCall t

/-- Every array step of the path has its slot. A node that is missing or of another kind has none:
it is read as an empty array. -/
def Inside : QJsonValue → List Key → Prop
  | _, [] => True
  | v, .index i :: keys => i < (toArray v).length ∧ Inside (valueAt v (.index i)) keys
  | v, .name s :: keys => Inside (valueAt v (.name s)) keys

theorem inside_index (v : QJsonValue) (i : ℕ) (keys : List Key) :
    Inside v (.index i :: keys) ↔
      i < (toArray v).length ∧ Inside (valueAt v (.index i)) keys := Iff.rfl

theorem inside_name (v : QJsonValue) (s : QString) (keys : List Key) :
    Inside v (.name s :: keys) ↔ Inside (valueAt v (.name s)) keys := Iff.rfl

theorem inside_congr {v w : QJsonValue} (same : SameInside v w) (keys : List Key) :
    Inside v keys ↔ Inside w keys := by
  cases keys with
  | nil => exact Iff.rfl
  | cons k keys =>
      have child := valueAt_congr same k
      cases k with
      | index i => rw [inside_index, inside_index, child, same.1]
      | name s => rw [inside_name, inside_name, child]

section Agree

theorem descendCall_eq {val next : QJsonValue} {step : QJsonIONodeType}
    (made : descendCall val step = some next) : descend val step = next := by
  obtain ⟨k, mode⟩ := step
  cases mode with
  | JSONIO_MODE_ARRAY =>
      unfold descendCall subscriptCall at made
      simp only at made
      split_ifs at made
      exact Option.some.inj made
  | JSONIO_MODE_OBJECT => exact Option.some.inj made

private theorem foldl_of_foldlM {σ β : Type} {call : σ → β → Option σ} {round : σ → β → σ}
    (agree : ∀ s b s', call s b = some s' → round s b = s') (l : List β) {s last : σ}
    (made : l.foldlM call s = some last) : l.foldl round s = last := by
  induction l generalizing s with
  | nil => exact Option.some.inj made
  | cons b l ih =>
      rw [List.foldlM_cons] at made
      obtain ⟨next, first, others⟩ := Option.bind_eq_some_iff.mp made
      rw [List.foldl_cons, agree s b next first]
      exact ih others

theorem getValueCalls_eq {parent val : QJsonValue} {path : QJsonIOPath}
    (made : getValueCalls parent path = some val) (defaultValue : QJsonValue) :
    GetValuePath parent path defaultValue = val.or defaultValue := by
  have loop : path.foldl descend parent = val :=
    foldl_of_foldlM (fun _ _ _ => descendCall_eq) path made
  unfold GetValuePath
  rw [loop]
  cases val <;> rfl

/-- Padding makes room: the upward loop never subscripts outside. -/
theorem rebuildCall_eq (lastNode : QJsonValue) (entry : QJsonIONodeType × QJsonValue) :
    rebuildCall lastNode entry = some (rebuild lastNode entry) := by
  obtain ⟨⟨key, mode⟩, node⟩ := entry
  cases mode with
  | JSONIO_MODE_ARRAY =>
      have room : textToInt key < (grow (toArray node) (textToInt key)).length := by
        rw [grow_eq_padded, length_padded]
        omega
      unfold rebuildCall assignCall
      simp only [if_pos room]
      rfl
  | JSONIO_MODE_OBJECT => rfl

theorem foldlM_rebuildCall (_stack : List (QJsonIONodeType × QJsonValue)) (t : QJsonValue) :
    _stack.foldlM rebuildCall t = some (_stack.foldl rebuild t) := by
  induction _stack generalizing t with
  | nil => rfl
  | cons entry _stack ih =>
      rw [List.foldlM_cons, rebuildCall_eq]
      exact ih (rebuild t entry)

theorem prependCall_eq {state next : List (QJsonIONodeType × QJsonValue) × QJsonValue}
    {step : QJsonIONodeType} (made : prependCall state step = some next) :
    prepend state step = next := by
  obtain ⟨val, first, rfl⟩ := Option.map_eq_some_iff.mp made
  unfold prepend
  rw [descendCall_eq first]

theorem setValueCalls_eq {parent : Parent} {t lastNode : QJsonValue} {path : QJsonIOPath}
    (made : setValueCalls parent.toValue t path = some lastNode) :
    SetValuePath parent t path = match parent with
      | .object _ => .object (toObject lastNode)
      | .array _ => .array (toArray lastNode) := by
  obtain ⟨state, down, up⟩ := Option.bind_eq_some_iff.mp made
  have snapshots : path.foldl prepend ([], parent.toValue) = state :=
    foldl_of_foldlM (fun _ _ _ => prependCall_eq) path down
  have rebuilt : state.1.foldl rebuild t = lastNode := by
    rw [foldlM_rebuildCall] at up
    exact Option.some.inj up
  unfold SetValuePath
  simp only [snapshots, rebuilt]
  cases parent <;> rfl

end Agree

section Downward

private theorem descendCall_inside {k : Key} (small : k.Below (2 ^ 31)) (v : QJsonValue)
    (keys : List Key) :
    (∃ next, descendCall v (step k) = some next ∧ Inside next keys) ↔ Inside v (k :: keys) := by
  have below := inside_congr (sameInside_subscript v k) keys
  cases k with
  | index i =>
      have fits : i < 2 ^ 31 := small
      have call : descendCall v (step (.index i)) = subscriptCall (toArray v) i := by
        show subscriptCall (toArray v) (textToInt (number i)) = subscriptCall (toArray v) i
        rw [textToInt_number, if_pos fits]
      rw [call]
      rw [inside_index, ← below]
      unfold subscriptCall
      by_cases inside : i < (toArray v).length
      · rw [if_pos inside]
        constructor
        · rintro ⟨next, made, rest⟩
          rw [← Option.some.inj made] at rest
          exact ⟨inside, rest⟩
        · rintro ⟨-, rest⟩
          exact ⟨_, rfl, rest⟩
      · rw [if_neg inside]
        constructor
        · rintro ⟨next, made, -⟩
          exact nomatch made
        · intro both
          exact absurd both.1 inside
  | name s =>
      rw [inside_name, ← below]
      constructor
      · rintro ⟨next, made, rest⟩
        rw [← Option.some.inj made] at rest
        exact rest
      · intro rest
        exact ⟨_, rfl, rest⟩

theorem getValueCalls_isSome_iff {keys : List Key} (small : ∀ k ∈ keys, k.Below (2 ^ 31))
    (v : QJsonValue) : (∃ val, getValueCalls v (keys.map step) = some val) ↔ Inside v keys := by
  unfold getValueCalls
  induction keys generalizing v with
  | nil => exact ⟨fun _ => trivial, fun _ => ⟨v, rfl⟩⟩
  | cons k keys ih =>
      rw [List.forall_mem_cons] at small
      rw [← descendCall_inside small.1, List.map_cons, List.foldlM_cons]
      constructor
      · rintro ⟨val, made⟩
        obtain ⟨next, first, others⟩ := Option.bind_eq_some_iff.mp made
        exact ⟨next, first, (ih small.2 next).mp ⟨val, others⟩⟩
      · rintro ⟨next, first, rest⟩
        obtain ⟨val, others⟩ := (ih small.2 next).mpr rest
        exact ⟨val, Option.bind_eq_some_iff.mpr ⟨next, first, others⟩⟩

/-- The downward loop of `SetValue` makes the calls of `GetValue`; its stack plays no part. -/
theorem foldlM_prependCall (path : QJsonIOPath)
    (_stack : List (QJsonIONodeType × QJsonValue)) (v : QJsonValue) :
    (path.foldlM prependCall (_stack, v)).map Prod.snd = getValueCalls v path := by
  unfold getValueCalls
  induction path generalizing _stack v with
  | nil => rfl
  | cons step path ih =>
      rw [List.foldlM_cons, List.foldlM_cons]
      unfold prependCall
      cases descendCall v step with
      | none => rfl
      | some next => exact ih _ next

end Downward

/-- No array subscript of a path read or a path write is out of range exactly when every array step
of the path has its slot. -/
theorem array_calls_in_range_iff (v t : QJsonValue) (keys : List Key)
    (small : ∀ k ∈ keys, k.Below (2 ^ 31 - 1)) :
    ((getValueCalls v (ofKeys keys)).isSome = true ↔ Inside v keys) ∧
      ((setValueCalls v t (ofKeys keys)).isSome = true ↔ Inside v keys) := by
  have fits : ∀ k ∈ keys, k.Below (2 ^ 31) := fun k member => (small k member).mono (by omega)
  have read : (getValueCalls v (ofKeys keys)).isSome = true ↔ Inside v keys := by
    rw [ofKeys_eq_map, Option.isSome_iff_exists]
    exact getValueCalls_isSome_iff fits v
  have written : (setValueCalls v t (ofKeys keys)).isSome =
      (getValueCalls v (ofKeys keys)).isSome := by
    unfold setValueCalls
    simp only [foldlM_rebuildCall]
    rw [← foldlM_prependCall (ofKeys keys) [] v]
    cases (ofKeys keys).foldlM prependCall ([], v) <;> rfl
  exact ⟨read, written ▸ read⟩

/-- The last element of an array of two. -/
theorem last_element_in_range :
    (getValueCalls (some (.array [some .null, some .null])) (ofKeys [.index 1])).isSome = true :=
  (array_calls_in_range_iff (some (.array [some .null, some .null])) (some .null) [.index 1]
    (by simp [Key.Below])).1.mpr ⟨by decide, trivial⟩

/-- An index at the end of a shorter array: both downward loops subscript outside. -/
theorem short_array_out_of_range :
    ¬ ∀ (v t : QJsonValue) (keys : List Key), keys ≠ [] → (∀ k ∈ keys, k.Below (2 ^ 31 - 1)) →
      (getValueCalls v (ofKeys keys)).isSome = true ∧
        (setValueCalls v t (ofKeys keys)).isSome = true := by
  intro claim
  have whole := claim (some (.array [some .null])) (some .null) [.index 1] (List.cons_ne_nil _ _)
    (by simp [Key.Below])
  have outside : (getValueCalls (some (.array [some .null])) (ofKeys [.index 1])).isSome = false := by
    decide
  rw [outside] at whole
  exact Bool.false_ne_true whole.1

end QJsonIO

end QvPlugin.Utils
