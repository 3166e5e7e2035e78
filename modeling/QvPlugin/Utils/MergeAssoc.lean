import QvPlugin.Qt.Path
import QvPlugin.Utils.JsonConversion

/-!
`MergeJson` is associative on documents whose kinds agree. A key can be in any of the three
documents; where it is in all of them the law is that of the three values, one level down.
-/

set_option autoImplicit false
set_option relaxedAutoImplicit false

namespace QvPlugin.Utils

open Lib Qt

def SameKind (x y : Json) : Prop :=
  isObject (some x) = isObject (some y) ∧ isArray (some x) = isArray (some y)

/-- At every path of object keys that both have, the two hold values of one kind. -/
def KindsAgree (v w : QJsonValue) : Prop :=
  ∀ path x y, valueUnder v path = some x → valueUnder w path = some y → SameKind x y

theorem KindsAgree.below {v w : QJsonValue} (agree : KindsAgree v w) (k : QString) :
    KindsAgree ((toObject v).lookup k) ((toObject w).lookup k) :=
  fun path => agree (k :: path)

theorem KindsAgree.root {x y : Json} (agree : KindsAgree (some x) (some y)) : SameKind x y :=
  agree [] x y rfl rfl

private theorem kind_cases (j : Json) : (∃ o, j = .object o) ∨ (∃ a, j = .array a) ∨
    (isObject (some j) = false ∧ isArray (some j) = false) := by
  cases j with
  | object o => exact Or.inl ⟨o, rfl⟩
  | array a => exact Or.inr (Or.inl ⟨a, rfl⟩)
  | _ => exact Or.inr (Or.inr ⟨rfl, rfl⟩)

theorem SameKind.object {o : QJsonObject} {j : Json} (same : SameKind (.object o) j) :
    ∃ o', j = .object o' :=
  ⟨toObject (some j), Option.some.inj (eq_object_of_isObject same.1.symm)⟩

theorem SameKind.array {a : QJsonArray} {j : Json} (same : SameKind (.array a) j) :
    ∃ b, j = .array b :=
  ⟨toArray (some j), Option.some.inj (eq_array_of_isArray same.2.symm)⟩

private theorem merge_lookup_assoc {a b c : Option Json}
    (inner : ∀ x y z, a = some x → b = some y → c = some z →
      mergeValue (some (mergeValue (some x) y)) z = mergeValue (some x) (mergeValue (some y) z)) :
    (c.map (mergeValue ((b.map (mergeValue a)).or a))).or ((b.map (mergeValue a)).or a) =
      (((c.map (mergeValue b)).or b).map (mergeValue a)).or a := by
  cases a with
  | none =>
      cases b with
      | none => cases c <;> rfl
      | some y => cases c <;> rfl
  | some x =>
      cases b with
      | none => cases c <;> rfl
      | some y =>
          cases c with
          | none => rfl
          | some z => exact congrArg some (inner x y z rfl rfl rfl)

private theorem mergeJson_assoc_of_members {a b c : QJsonObject}
    (inner : ∀ k x y z, a.lookup k = some x → b.lookup k = some y → c.lookup k = some z →
      mergeValue (some (mergeValue (some x) y)) z = mergeValue (some x) (mergeValue (some y) z)) :
    mergeJson (mergeJson a (some (.object b))) (some (.object c)) =
      mergeJson a (some (.object (mergeJson b (some (.object c))))) := by
  ext1 k
  rw [lookup_mergeJson, lookup_mergeJson, lookup_mergeJson, lookup_mergeJson]
  exact merge_lookup_assoc (inner k)

theorem mergeValue_assoc (a : Json) : ∀ b c : Json, KindsAgree (some a) (some b) →
    KindsAgree (some b) (some c) → KindsAgree (some a) (some c) →
    mergeValue (some (mergeValue (some a) b)) c =
      mergeValue (some a) (mergeValue (some b) c) := by
  induction a using Json.member_induction with
  | step a ih =>
      intro b c agree agree' agree''
      rcases kind_cases a with ⟨o, rfl⟩ | ⟨xs, rfl⟩ | ⟨notObject, notArray⟩
      · obtain ⟨o', rfl⟩ := agree.root.object
        obtain ⟨o'', rfl⟩ := agree'.root.object
        rw [mergeValue_objects, mergeValue_objects, mergeValue_objects, mergeValue_objects]
        congr 1
        apply mergeJson_assoc_of_members
        intro k x y z inA inB inC
        have first := agree.below k
        have second := agree'.below k
        have third := agree''.below k
        rw [toObject_object, toObject_object, inA, inB] at first
        rw [toObject_object, toObject_object, inB, inC] at second
        rw [toObject_object, toObject_object, inA, inC] at third
        exact ih k x inA y z first second third
      · obtain ⟨ys, rfl⟩ := agree.root.array
        obtain ⟨zs, rfl⟩ := agree'.root.array
        have twice : (zs.map QJsonArray.settled).map QJsonArray.settled =
            zs.map QJsonArray.settled := by
          rw [List.map_map]
          exact List.map_congr_left fun v _ => QJsonArray.settled_settled v
        rw [mergeValue_arrays, mergeValue_arrays, mergeValue_arrays, mergeValue_arrays,
          List.map_append, twice, List.append_assoc]
      · -- a plain value stays, whatever is merged into it
        have stays (new : Json) : mergeValue (some a) new = a :=
          mergeValue_clash (by rw [notObject, Bool.false_and]) (by rw [notArray, Bool.false_and])
        rw [stays, stays, stays]

structure AllAgree (a b c : QJsonObject) : Prop where
  left : KindsAgree (some (.object a)) (some (.object b))
  right : KindsAgree (some (.object b)) (some (.object c))
  outer : KindsAgree (some (.object a)) (some (.object c))

theorem AllAgree.merge_assoc {a b c : QJsonObject} (agree : AllAgree a b c) :
    mergeJson (mergeJson a (some (.object b))) (some (.object c)) =
      mergeJson a (some (.object (mergeJson b (some (.object c))))) := by
  have values := mergeValue_assoc (.object a) (.object b) (.object c) agree.left agree.right
    agree.outer
  rw [mergeValue_objects, mergeValue_objects, mergeValue_objects, mergeValue_objects] at values
  exact Json.object_inj.mp values

theorem mergeJson_empty (o : QJsonObject) : mergeJson ∅ (some (.object o)) = o := by
  ext1 k
  rw [lookup_mergeJson, KeyMap.lookup_empty, Option.or_none]
  cases o.lookup k <;> rfl

/-- Merging is associative where kinds agree; so a struct whose base has two bases of its own is
written as if it listed them itself, one after the other. -/
theorem mergeJson_assoc :
    (∀ a b c : QJsonObject, AllAgree a b c →
      mergeJson (mergeJson a (some (.object b))) (some (.object c)) =
        mergeJson a (some (.object (mergeJson b (some (.object c)))))) ∧
    ∀ (p : Platform) {S β γ δ : Type} (base : Lens S β) (first : Lens β γ) (second : Lens β δ)
      (c : Clauses γ) (d : Clauses δ) (rest : Clauses S) (s : S) (json : QJsonObject),
      AllAgree json (c.toJson p (first.get (base.get s)))
          (d.toJson p (second.get (base.get s))) →
        (Clauses.B base (.B first c (.B second d .nil)) rest).toJsonInto p s json =
          (Clauses.B (base.comp first) c (.B (base.comp second) d rest)).toJsonInto p s json := by
  refine ⟨fun a b c agree => agree.merge_assoc, ?_⟩
  intro p S β γ δ base first second c d rest s json agree
  have grouped := agree.merge_assoc
  unfold Clauses.toJson at grouped
  simp only [Clauses.toJsonInto, mergeJson_empty]
  rw [← grouped]
  rfl

theorem kindsAgree_arrays (xs ys : QJsonArray) :
    KindsAgree (some (.array xs)) (some (.array ys)) := by
  intro path x y inX inY
  cases path with
  | nil =>
      rw [← Option.some.inj inX, ← Option.some.inj inY]
      exact ⟨rfl, rfl⟩
  | cons k path => exact nomatch isObject_of_valueUnder inX

theorem kindsAgree_objects {o o' : QJsonObject}
    (inner : ∀ k, KindsAgree (o.lookup k) (o'.lookup k)) :
    KindsAgree (some (.object o)) (some (.object o')) := by
  intro path x y inX inY
  cases path with
  | nil =>
      rw [← Option.some.inj inX, ← Option.some.inj inY]
      exact ⟨rfl, rfl⟩
  | cons k path => exact inner k path x y inX inY

private theorem arrays_agree (xs ys : QJsonArray) :
    KindsAgree (some (.object (KeyMap.set ∅ "a" (.array xs))))
      (some (.object (KeyMap.set ∅ "a" (.array ys)))) := by
  apply kindsAgree_objects
  intro k
  rw [KeyMap.lookup_set, KeyMap.lookup_set]
  by_cases here : k = "a"
  · rw [if_pos here, if_pos here]
    exact kindsAgree_arrays xs ys
  · intro path x y inX
    rw [if_neg here, KeyMap.lookup_empty, valueUnder_none] at inX
    exact nomatch inX

/-- Three arrays under one key. -/
theorem arrays_merge_assoc :
    let one (q : ℚ) : QJsonObject := KeyMap.set ∅ "a" (.array [some (.number q)])
    mergeJson (mergeJson (one 1) (some (.object (one 2)))) (some (.object (one 3))) =
      mergeJson (one 1) (some (.object (mergeJson (one 2) (some (.object (one 3)))))) := by
  intro one
  exact mergeJson_assoc.1 (one 1) (one 2) (one 3)
    ⟨arrays_agree _ _, arrays_agree _ _, arrays_agree _ _⟩

end QvPlugin.Utils
