import QvPlugin.Lib.Reorder
import QvPlugin.Qt.PathOrder
import QvPlugin.Utils.SetValue

/-!
Calls of the path form of `SetValue` on one parent, in a row: whether their order counts is decided
by the paths and the values alone.
-/

set_option autoImplicit false
set_option relaxedAutoImplicit false

namespace QvPlugin.Utils

open Lib Qt

namespace QJsonIO

open QJsonIOPath (ofKeys stored map_stored_of_below)

def SetValues (parent : Parent) (calls : List (List Key × Json)) : Parent :=
  calls.foldl (fun parent call => SetValuePath parent (some call.2) (ofKeys call.1)) parent

/-- The path starts with the parent's kind of key, and its indices fit an `int`. -/
def Proper (parent : Parent) : List Key → Prop
  | [] => False
  | k :: ks => IsFor parent.toValue k = true ∧ ∀ key ∈ k :: ks, key.Below (2 ^ 31 - 1)

section Calls

theorem isFor_SetValuePath (parent : Parent) (t : QJsonValue) (path : QJsonIOPath) (k : Key) :
    IsFor (SetValuePath parent t path).toValue k = IsFor parent.toValue k := by
  cases parent <;> cases k <;> rfl

theorem Proper.below {parent : Parent} {path : List Key} (proper : Proper parent path) :
    path.map stored = path := by
  cases path with
  | nil => exact proper.elim
  | cons k ks =>
      apply map_stored_of_below
      intro key member
      exact (proper.2 key member).mono (by omega)

theorem Proper.toValue_written {parent : Parent} {path : List Key}
    (proper : Proper parent path) (t : QJsonValue) :
    (SetValuePath parent t (ofKeys path)).toValue = put parent.toValue path t := by
  cases path with
  | nil => exact proper.elim
  | cons k ks => rw [toValue_SetValuePath proper.1, proper.below]

theorem Proper.after {parent : Parent} {path : List Key} (proper : Proper parent path)
    (t : QJsonValue) (written : QJsonIOPath) : Proper (SetValuePath parent t written) path := by
  cases path with
  | nil => exact proper
  | cons k ks => exact ⟨(isFor_SetValuePath parent t written k).trans proper.1, proper.2⟩

theorem toValue_SetValues (calls : List (List Key × Json)) (parent : Parent)
    (proper : ∀ call ∈ calls, Proper parent call.1) :
    (SetValues parent calls).toValue =
      calls.foldl (fun v call => put v call.1 (some call.2)) parent.toValue := by
  induction calls generalizing parent with
  | nil => rfl
  | cons call calls ih =>
      have first := (proper call List.mem_cons_self).toValue_written (some call.2)
      have rest : ∀ c ∈ calls, Proper (SetValuePath parent (some call.2) (ofKeys call.1)) c.1 :=
        fun c member => (proper c (List.mem_cons_of_mem _ member)).after _ _
      have later := ih _ rest
      rw [first] at later
      exact later

theorem GetValuePath_SetValues_last (parent : Parent) (calls : List (List Key × Json))
    (call : List Key × Json) (proper : ∀ c ∈ calls ++ [call], Proper parent c.1)
    (defaultValue : QJsonValue) :
    GetValuePath (SetValues parent (calls ++ [call])).toValue (ofKeys call.1) defaultValue =
      some call.2 := by
  have own := proper call (List.mem_append_right _ List.mem_cons_self)
  have written := toValue_SetValues _ parent proper
  rw [List.foldl_append] at written
  have reached := read_of_follow
    (follow_put (calls.foldl (fun v c => put v c.1 (some c.2)) parent.toValue) call.1 call.2)
  rw [GetValuePath_eq_read, own.below, written]
  exact congrArg (fun v => v.or defaultValue) reached

end Calls

/-- Calls of `SetValue` on one parent can be made in any order exactly when every two of their paths
part at steps into one kind of container, or the one goes on below the other and the value there is
in the other value already. Every path then reads back its own value. -/
theorem SetValues_order_iff (parent : Parent) (calls : List (List Key × Json))
    (proper : ∀ call ∈ calls, Proper parent call.1) :
    ((∀ calls', calls.Perm calls' → SetValues parent calls' = SetValues parent calls) ↔
      calls.Pairwise Commuting) ∧
    (calls.Pairwise Commuting → ∀ call ∈ calls, ∀ defaultValue,
      GetValuePath (SetValues parent calls).toValue (ofKeys call.1) defaultValue =
        some call.2) := by
  have properOf : ∀ calls', calls.Perm calls' → ∀ call ∈ calls', Proper parent call.1 :=
    fun calls' perm call member => proper call (perm.mem_iff.mpr member)
  have free : (∀ calls', calls.Perm calls' → SetValues parent calls' = SetValues parent calls) ↔
      calls.Pairwise Commuting := by
    have commute : ∀ (v : QJsonValue) (a b : List Key × Json),
        put (put v a.1 (some a.2)) b.1 (some b.2) = put (put v b.1 (some b.2)) a.1 (some a.2) ↔
          Commuting a b :=
      fun v a b => put_comm_iff v a.1 b.1 a.2 b.2
    rw [← foldl_order_iff (fun v call => put v call.1 (some call.2)) commute parent.toValue calls]
    constructor
    · intro same calls' perm
      have values := congrArg Parent.toValue (same calls' perm)
      rw [toValue_SetValues _ _ (properOf calls' perm), toValue_SetValues _ _ proper] at values
      exact values
    · intro same calls' perm
      apply toValue_injective
      rw [toValue_SetValues _ _ (properOf calls' perm), toValue_SetValues _ _ proper]
      exact same calls' perm
  refine ⟨free, ?_⟩
  intro pairwise call member defaultValue
  obtain ⟨front, tail, split⟩ := List.append_of_mem member
  have last : calls.Perm ((front ++ tail) ++ [call]) := by
    rw [split, List.append_assoc]
    exact (List.perm_append_singleton call tail).symm.append_left front
  have moved := free.mpr pairwise _ last
  rw [← moved]
  exact GetValuePath_SetValues_last parent (front ++ tail) call (properOf _ last) defaultValue

/-- Two elements of an array that is not there yet, and a member beside it. -/
theorem SetValues_order_iff_padded :
    SetValues (.object ∅) [([.name "b"], .string "x"), ([.name "a", .index 0], .bool true),
        ([.name "a", .index 2], .null)] =
      SetValues (.object ∅) [([.name "a", .index 2], .null), ([.name "a", .index 0], .bool true),
        ([.name "b"], .string "x")] := by
  have indices : Key.SameKind (.index 2) (.index 0) := trivial
  have names : Key.SameKind (.name "a") (.name "b") := trivial
  have elements : Apart [.name "a", .index 2] [.name "a", .index 0] :=
    Apart.step _ (Apart.here (by decide) indices [] [])
  have members : ∀ i, Apart [.name "a", .index i] [.name "b"] := fun i =>
    Apart.here (by decide) names [.index i] []
  have proper : ∀ path ∈ ([[.name "a", .index 2], [.name "a", .index 0], [.name "b"]] :
      List (List Key)), Proper (.object ∅) path := by
    simp [Proper, IsFor, Parent.toValue, Key.Below]
  refine (SetValues_order_iff _ _ ?_).1.mpr ?_ _ (List.reverse_perm _).symm
  · intro call member
    exact proper call.1 (List.mem_map_of_mem member)
  · simp [Commuting, elements, members]

end QJsonIO

end QvPlugin.Utils
