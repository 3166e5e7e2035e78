import QvPlugin.Common.WellFormed
import QvPlugin.Utils.Leaves
import QvPlugin.Utils.MergePaths

/-!
Loading a merged document, against loading its two sides one after the other: the side that
`MergeJson` adds first, and the receiver, whose values win, over it.
-/

set_option autoImplicit false
set_option relaxedAutoImplicit false

namespace QvPlugin.Utils

open Lib Qt Common

section Value

theorem noClash_cons_iff (v : QJsonValue) (k : QString) (path : List QString) :
    NoClash v (k :: path) ↔
      (v = none ∨ isObject v = true) ∧ NoClash ((toObject v).lookup k) path := by
  constructor
  · exact noClash_cons
  · rintro ⟨root, below⟩ front k' tail split
    cases front with
    | nil => exact root
    | cons c front =>
        obtain ⟨rfl, rest⟩ := List.cons.inj split
        exact below front k' tail rest

theorem noClash_nil (v : QJsonValue) : NoClash v [] := by
  intro front k tail split
  exact absurd (congrArg List.length split) (by simp)

theorem noClash_none (path : List QString) : NoClash none path :=
  fun front _ _ _ => Or.inl (valueUnder_none front)

theorem noClash_of_valueUnder {v : QJsonValue} {path : List QString} {j : Json}
    (reached : valueUnder v path = some j) : NoClash v path := by
  induction path generalizing v with
  | nil => exact noClash_nil v
  | cons k path ih =>
      have object := isObject_of_valueUnder reached
      rw [valueUnder_cons] at reached
      exact (noClash_cons_iff v k path).mpr ⟨Or.inr object, ih reached⟩

theorem valueUnder_of_notObject {v : QJsonValue} (notObject : isObject v = false) (k : QString)
    (path : List QString) : valueUnder v (k :: path) = none := by
  cases reached : valueUnder v (k :: path) with
  | none => rfl
  | some j =>
      have object := isObject_of_valueUnder reached
      rw [notObject] at object
      exact absurd object Bool.false_ne_true

/-- Where only objects are on the way, the merge holds the merge of what the two sides hold. -/
theorem valueUnder_mergeValue (path : List QString) (old : Option Json) (new : Json)
    (clear : NoClash old path) :
    valueUnder (some (mergeValue old new)) path =
      ((valueUnder (some new) path).map (mergeValue (valueUnder old path))).or
        (valueUnder old path) := by
  induction path generalizing old new with
  | nil => rfl
  | cons k path ih =>
      cases old with
      | none =>
          rw [valueUnder_none, mergeValue_none, Option.or_none]
          cases valueUnder (some new) (k :: path) <;> rfl
      | some old =>
          obtain ⟨root, below⟩ := noClash_cons clear
          have object : isObject (some old) = true := root.resolve_left (Option.some_ne_none old)
          have shape : old = .object (toObject (some old)) :=
            Option.some.inj (eq_object_of_isObject object)
          generalize toObject (some old) = o at below shape
          subst shape
          by_cases both : isObject (some new) = true
          · have shape : new = .object (toObject (some new)) :=
              Option.some.inj (eq_object_of_isObject both)
            generalize toObject (some new) = o' at shape
            subst shape
            rw [valueUnder_merge_cons, valueUnder_cons, valueUnder_cons, toObject_object,
              toObject_object]
            cases o'.lookup k with
            | none => rw [valueUnder_none]; rfl
            | some j => exact ih (o.lookup k) j below
          · rw [Bool.not_eq_true] at both
            have kept : mergeValue (some (.object o)) new = .object o :=
              mergeValue_clash (by rw [both, Bool.and_false]) rfl
            rw [kept, valueUnder_of_notObject both]
            rfl

theorem valueUnder_mergeValue_of_clash (path : List QString) (old : Option Json) (new : Json)
    (clash : ¬ NoClash old path) : valueUnder (some (mergeValue old new)) path = none := by
  have own : valueUnder old path = none := by
    cases reached : valueUnder old path with
    | none => rfl
    | some j => exact absurd (noClash_of_valueUnder reached) clash
  induction path generalizing old new with
  | nil => exact absurd (noClash_nil old) clash
  | cons k path ih =>
      cases old with
      | none => exact absurd (noClash_none (k :: path)) clash
      | some old =>
          induction old, new using mergeValue_cases with
          | objects o o' =>
              have below : ¬ NoClash (o.lookup k) path := fun clear =>
                clash ((noClash_cons_iff _ k path).mpr ⟨Or.inr rfl, clear⟩)
              rw [valueUnder_cons, toObject_object] at own
              rw [valueUnder_merge_cons]
              cases o'.lookup k with
              | none => exact own
              | some j => exact ih (o.lookup k) j below own
          | arrays a b =>
              rw [mergeValue_arrays]
              exact valueUnder_of_notObject rfl k path
          | clash old new kept =>
              rw [kept]
              exact own

end Value

section Fields

variable (p : Platform)

theorem Leaf.nontrivial {α : Type} (k : Leaf α) : Nontrivial α := by
  cases k with
  | bool => exact ⟨⟨true, false, by decide⟩⟩
  | int => exact ⟨⟨0, 1, by decide⟩⟩
  | ulonglong => exact ⟨⟨0, 1, by decide⟩⟩
  | float => exact ⟨⟨0, 1, by decide⟩⟩
  | string => exact ⟨⟨"", "a", by decide⟩⟩
  | timePoint => exact ⟨⟨⟨0⟩, ⟨1⟩, by decide⟩⟩
  | enum repr =>
      have ints : Nontrivial Int32 := ⟨⟨0, 1, by decide⟩⟩
      exact repr.nontrivial
  | id tag => exact ⟨⟨⟨""⟩, ⟨"a"⟩, by simp⟩⟩
  | object => exact ⟨⟨∅, KeyMap.set ∅ "" .null, by decide⟩⟩
  | safeJson tag =>
      have differ : (∅ : QJsonObject) ≠ KeyMap.set ∅ "" .null := by decide
      exact ⟨⟨⟨∅⟩, ⟨KeyMap.set ∅ "" .null⟩, fun same => differ (congrArg SafeJsonType.raw same)⟩⟩

theorem Ty.nontrivial {α : Type} {t : Ty α} (notStruct : t.isStruct = false) : Nontrivial α := by
  cases t with
  | leaf k => exact k.nontrivial
  | list t fresh => exact ⟨⟨[], [fresh], List.cons_ne_nil fresh [] |>.symm⟩⟩
  | set t fresh => exact ⟨⟨∅, {fresh}, (Finset.singleton_ne_empty fresh).symm⟩⟩
  | map t fresh =>
      refine ⟨⟨∅, KeyMap.set ∅ "" fresh, fun same => ?_⟩⟩
      have looked := congrArg (fun m => m.lookup "") same
      simp at looked
  | struct c => exact absurd notStruct (by rw [Ty.isStruct]; exact Bool.noConfusion)

/-- What the added side has for the field is reached in the merge, and where the receiver has a
value too, the field reads both together as it reads that one. -/
def LeafField.Layered {S : Type} (f : LeafField S) (s o : QJsonObject) : Prop :=
  ∀ b, valueUnder (some (.object o)) f.path = some b →
    NoClash (some (.object s)) f.path ∧
      ∀ a, valueUnder (some (.object s)) f.path = some a →
        ∀ x, f.ty.deserialize p x (some (mergeValue (some a) b)) = f.ty.deserialize p x (some a)

/-- One field: loading the merge is loading the added side and the receiver over it. -/
theorem LeafField.load_mergeJson_iff {S : Type} (f : LeafField S) (s o : QJsonObject) :
    (∀ x, f.load p (some (.object (mergeJson s (some (.object o))))) x =
        f.load p (some (.object s)) (f.load p (some (.object o)) x)) ↔ f.Layered p s o := by
  have merged : ∀ path, valueUnder (some (.object (mergeJson s (some (.object o))))) path =
      valueUnder (some (mergeValue (some (.object s)) (.object o))) path := fun path => rfl
  unfold LeafField.Layered LeafField.load
  rw [merged]
  by_cases clear : NoClash (some (.object s)) f.path
  · rw [valueUnder_mergeValue f.path (some (.object s)) (.object o) clear]
    cases valueUnder (some (.object o)) f.path with
    | none => exact iff_of_true (fun x => rfl) fun b absurd_ => nomatch absurd_
    | some b =>
        cases valueUnder (some (.object s)) f.path with
        | none =>
            exact iff_of_true (fun x => rfl) fun b' _ => ⟨clear, fun a absurd_ => nomatch absurd_⟩
        | some a =>
            have last : ∀ x, f.ty.reload p (f.ty.reload p x (some b)) (some a) =
                f.ty.deserialize p x (some a) := fun x =>
              Ty.deserialize_of_notStruct p f.notStruct _ x (some a)
            constructor
            · intro same b' right
              cases right
              refine ⟨clear, fun a' left x => ?_⟩
              cases left
              exact (same x).trans (last x)
            · intro layered x
              exact ((layered b rfl).2 a rfl x).trans (last x).symm
  · have own : valueUnder (some (.object s)) f.path = none := by
      cases reached : valueUnder (some (.object s)) f.path with
      | none => rfl
      | some j => exact absurd (noClash_of_valueUnder reached) clear
    rw [valueUnder_mergeValue_of_clash f.path (some (.object s)) (.object o) clear, own]
    cases valueUnder (some (.object o)) f.path with
    | none => exact iff_of_true (fun x => rfl) fun b absurd_ => nomatch absurd_
    | some b =>
        -- the merge has lost the value, which the load of the added side puts into the field
        refine iff_of_false ?_ fun layered => clear (layered b rfl).1
        intro same
        obtain ⟨x, x', differ⟩ := Ty.nontrivial f.notStruct
        apply differ
        have first : x = f.ty.deserialize p x (some b) := same x
        have second : x' = f.ty.deserialize p x' (some b) := same x'
        rw [first, second]
        exact Ty.deserialize_of_notStruct p f.notStruct x x' (some b)

end Fields

section Main

variable (p : Platform)

/-- Loading `MergeJson(s, o)` is loading `o` and then `s` over it, into whatever object, exactly
when each field that `o` has a value for is reached in the merge too and, where `s` has one as well,
is read from both together as from that one. -/
theorem Clauses.loadJson_mergeJson_iff {S : Type} [Nonempty S] {c : Clauses S}
    (separate : c.Separate) (s o : QJsonObject) :
    (∀ y, c.loadJson p (some (.object (mergeJson s (some (.object o))))) y =
        c.loadJson p (some (.object s)) (c.loadJson p (some (.object o)) y)) ↔
      ∀ f ∈ c.leaves, f.Layered p s o := by
  have pairwise := c.leaves_pairwise separate
  have each : (∀ y, c.loadJson p (some (.object (mergeJson s (some (.object o))))) y =
        c.loadJson p (some (.object s)) (c.loadJson p (some (.object o)) y)) ↔
      ∀ f ∈ c.leaves, ∀ x, f.load p (some (.object (mergeJson s (some (.object o))))) x =
        f.load p (some (.object s)) (f.load p (some (.object o)) x) := by
    simp only [c.loadJson_eq_modifyAll, modifyAll_modifyAll pairwise, modifyAll_eq_iff pairwise]
    constructor
    · intro same f listed x
      obtain ⟨y⟩ := ‹Nonempty S›
      have here := same (f.member.set x y) f listed
      rwa [f.member.get_set] at here
    · intro same y f listed
      exact same f listed (f.member.get y)
  rw [each]
  exact forall₂_congr fun f _ => f.load_mergeJson_iff p s o

/-- A name over another name and options. -/
theorem loadJson_mergeJson_iff_tagged :
    let s : QJsonObject := KeyMap.set ∅ "name" (.string "a")
    let o : QJsonObject :=
      KeyMap.set (KeyMap.set ∅ "name" (.string "b")) "options" (.object (KeyMap.set ∅ "x" .null))
    BaseTaggedObject.clauses.loadJson .reference (some (.object (mergeJson s (some (.object o)))))
        {} =
      BaseTaggedObject.clauses.loadJson .reference (some (.object s))
        (BaseTaggedObject.clauses.loadJson .reference (some (.object o)) {}) := by
  intro s o
  have some_ : Nonempty BaseTaggedObject := ⟨{}⟩
  have separate := BaseTaggedObject.clauses_regular.2.1.separate
  refine (Clauses.loadJson_mergeJson_iff .reference separate s o).mpr ?_ {}
  intro f member b found
  have fields : f.path = ["name"] ∨ f.path = ["options"] := by
    simp only [BaseTaggedObject.clauses, Clauses.leaves, Ty.leaves, List.map_cons, List.map_nil,
      List.cons_append, List.nil_append, List.mem_cons, List.not_mem_nil, or_false] at member
    rcases member with rfl | rfl
    · exact Or.inl rfl
    · exact Or.inr rfl
  have clear : ∀ k, NoClash (some (.object s)) [k] := fun k =>
    (noClash_cons_iff _ k []).mpr ⟨Or.inr rfl, noClash_nil _⟩
  rcases fields with name | options
  · rw [name] at found ⊢
    refine ⟨clear "name", fun a held x => ?_⟩
    cases held
    cases found
    rfl
  · have own : valueUnder (some (.object s)) ["options"] = none := by decide
    rw [options, own]
    exact ⟨clear "options", fun a held => absurd held.symm (Option.some_ne_none a)⟩

end Main

end QvPlugin.Utils
