import QvPlugin.Common.WellFormed
import QvPlugin.Utils.Leaves
import QvPlugin.Utils.SetValue

/-!
Editing a document with `SetValue` at the paths of members, and loading it afterwards. The paths of
two leaf fields part before either ends, so that an edit reaches one member and no other.
-/

set_option autoImplicit false
set_option relaxedAutoImplicit false

namespace QvPlugin.Utils

open Lib Qt Common

section Paths

def Beside (keys keys' : List QString) : Prop := ¬ keys <+: keys' ∧ ¬ keys' <+: keys

theorem beside_cons_of_ne {k k' : QString} (differ : k ≠ k') (keys keys' : List QString) :
    Beside (k :: keys) (k' :: keys') := by
  constructor
  · intro before
    exact differ (List.cons_prefix_cons.mp before).1
  · intro before
    exact differ (List.cons_prefix_cons.mp before).1.symm

theorem beside_cons_iff (k : QString) (keys keys' : List QString) :
    Beside (k :: keys) (k :: keys') ↔ Beside keys keys' := by
  rw [Beside, Beside, List.cons_prefix_cons, List.cons_prefix_cons]
  simp only [true_and]

theorem Beside.ne {keys keys' : List QString} (beside : Beside keys keys') : keys ≠ keys' :=
  fun same => beside.1 (same ▸ List.prefix_refl keys)

theorem Beside.symm {keys keys' : List QString} (beside : Beside keys keys') : Beside keys' keys :=
  ⟨beside.2, beside.1⟩

theorem valueUnder_write_self (v : QJsonValue) (k : QString) (x : QJsonValue)
    (keys : List QString) : valueUnder (write v (.name k) x) (k :: keys) = valueUnder x keys := by
  rw [valueUnder_cons, write, toObject_object, QJsonObject.lookup_insert, if_pos rfl]

theorem valueUnder_write_of_ne {k k' : QString} (differ : k ≠ k') (v x : QJsonValue)
    (keys : List QString) :
    valueUnder (write v (.name k) x) (k' :: keys) = valueUnder v (k' :: keys) := by
  rw [valueUnder_cons, write, toObject_object, QJsonObject.lookup_insert, if_neg differ.symm,
    valueUnder_cons]

theorem valueUnder_put (keys : List QString) (v t : QJsonValue) :
    valueUnder (put v (keys.map Key.name) t) keys = t := by
  induction keys generalizing v with
  | nil => rfl
  | cons k keys ih =>
      rw [List.map_cons, put_cons, valueUnder_write_self, ih]

theorem valueUnder_put_of_beside {keys keys' : List QString} (beside : Beside keys keys')
    (v t : QJsonValue) : valueUnder (put v (keys.map Key.name) t) keys' = valueUnder v keys' := by
  induction keys generalizing keys' v with
  | nil => exact absurd List.nil_prefix beside.1
  | cons k keys ih =>
      cases keys' with
      | nil => exact absurd List.nil_prefix beside.2
      | cons k' keys' =>
          rw [List.map_cons, put_cons]
          by_cases same : k = k'
          · subst same
            rw [valueUnder_write_self, ih ((beside_cons_iff k keys keys').mp beside),
              valueUnder_cons]
            rfl
          · exact valueUnder_write_of_ne same v _ keys'

end Paths

section Leaves

theorem Clauses.leaf_path : {S : Type} → {c : Clauses S} → ∀ f ∈ c.leaves,
    ∃ k ∈ c.keys, ∃ keys, f.path = k :: keys
  | _, .nil, f, listed => by
      rw [Clauses.leaves] at listed
      exact absurd listed List.not_mem_nil
  | _, .F name member t rest, f, listed => by
      rw [Clauses.leaves, List.mem_append, List.mem_map] at listed
      rw [Clauses.keys]
      rcases listed with ⟨g, -, rfl⟩ | later
      · exact ⟨name, List.mem_cons_self, g.path, rfl⟩
      · obtain ⟨k, key, keys, path⟩ := Clauses.leaf_path f later
        exact ⟨k, List.mem_cons_of_mem name key, keys, path⟩
  | _, @Clauses.P _ _ _ name _ member t rest, f, listed => by
      rw [Clauses.leaves, List.mem_append, List.mem_map] at listed
      rw [Clauses.keys]
      rcases listed with ⟨g, -, rfl⟩ | later
      · exact ⟨name, List.mem_cons_self, g.path, rfl⟩
      · obtain ⟨k, key, keys, path⟩ := Clauses.leaf_path f later
        exact ⟨k, List.mem_cons_of_mem name key, keys, path⟩
  | _, .B base clauses rest, f, listed => by
      rw [Clauses.leaves, List.mem_append, List.mem_map] at listed
      rw [Clauses.keys]
      rcases listed with ⟨g, inner, rfl⟩ | later
      · obtain ⟨k, key, keys, path⟩ := Clauses.leaf_path g inner
        exact ⟨k, List.mem_append_left _ key, keys, path⟩
      · obtain ⟨k, key, keys, path⟩ := Clauses.leaf_path f later
        exact ⟨k, List.mem_append_right _ key, keys, path⟩

private theorem beside_of_not_mem {S γ : Type} {rest : Clauses S} {name : QString}
    (fresh : name ∉ rest.keys) (f : LeafField γ) (keys : List QString)
    (path : f.path = name :: keys) : ∀ g ∈ rest.leaves, Beside f.path g.path := by
  intro g later
  obtain ⟨k, key, keys', path'⟩ := Clauses.leaf_path g later
  have differ : name ≠ k := fun same => fresh (same ▸ key)
  rw [path, path']
  exact beside_cons_of_ne differ keys keys'

private theorem pairwise_beside {S α : Type} {l : Lens S α} {name : QString}
    {inner : List (LeafField α)} {rest : Clauses S} (fresh : name ∉ rest.keys)
    (innerBeside : inner.Pairwise fun f g => Beside f.path g.path)
    (restBeside : rest.leaves.Pairwise fun f g => Beside f.path g.path) :
    (inner.map (LeafField.within l [name]) ++ rest.leaves).Pairwise
      fun f g => Beside f.path g.path := by
  rw [List.pairwise_append, List.pairwise_map]
  refine ⟨?_, restBeside, ?_⟩
  · apply innerBeside.imp
    intro f g beside
    exact (beside_cons_iff name f.path g.path).mpr beside
  · intro f inside
    obtain ⟨f', -, rfl⟩ := List.mem_map.mp inside
    exact beside_of_not_mem fresh _ f'.path rfl

mutual

theorem Ty.leaves_beside : {α : Type} → (t : Ty α) → t.Separate →
    t.leaves.Pairwise fun f g => Beside f.path g.path
  | _, .leaf _, _ => by rw [Ty.leaves]; exact List.pairwise_singleton _ _
  | _, .list _ _, _ => by rw [Ty.leaves]; exact List.pairwise_singleton _ _
  | _, @Ty.set _ _ _ _, _ => by rw [Ty.leaves]; exact List.pairwise_singleton _ _
  | _, .map _ _, _ => by rw [Ty.leaves]; exact List.pairwise_singleton _ _
  | _, .struct c, separate => by
      rw [Ty.Separate] at separate
      rw [Ty.leaves]
      exact c.leaves_beside separate

theorem Clauses.leaves_beside : {S : Type} → (c : Clauses S) → c.Separate →
    c.leaves.Pairwise fun f g => Beside f.path g.path
  | _, .nil, _ => by rw [Clauses.leaves]; exact List.Pairwise.nil
  | _, .F name member t rest, separate => by
      rw [Clauses.Separate] at separate
      obtain ⟨own, fresh, -, others⟩ := separate
      rw [Clauses.leaves]
      exact pairwise_beside fresh (t.leaves_beside own) (rest.leaves_beside others)
  | _, @Clauses.P _ _ _ name _ member t rest, separate => by
      rw [Clauses.Separate] at separate
      obtain ⟨own, fresh, -, others⟩ := separate
      rw [Clauses.leaves]
      exact pairwise_beside fresh (t.leaves_beside own) (rest.leaves_beside others)
  | _, .B base clauses rest, separate => by
      rw [Clauses.Separate] at separate
      obtain ⟨inner, distinct, -, others⟩ := separate
      rw [Clauses.leaves, List.pairwise_append, List.pairwise_map]
      refine ⟨clauses.leaves_beside inner, rest.leaves_beside others, ?_⟩
      intro f listed
      obtain ⟨f', inside, rfl⟩ := List.mem_map.mp listed
      obtain ⟨k, key, keys, path⟩ := Clauses.leaf_path f' inside
      exact beside_of_not_mem (distinct k key) _ keys path

end

end Leaves

section Edits

open QJsonIO (Parent SetValuePath SetValueObject SetValue_eq_put toValue_SetValuePath)
open QJsonIOPath (ofKeys stored)

variable {S : Type} (p : Platform)

/-- `QJsonIO::SetValue(json, t, path)` at the path of a leaf field. -/
def editPath (json : Parent) (edit : LeafField S × QJsonValue) : Parent :=
  SetValuePath json edit.2 (ofKeys (edit.1.path.map Key.name))

/-- `QJsonIO::SetValue(settings, t, keys...)` with the keys of a leaf field. -/
def editSettings {tag : SafeJsonTag} (settings : SafeJsonType tag)
    (edit : LeafField S × QJsonValue) : SafeJsonType tag :=
  match edit.1.path with
  | [] => settings
  | key :: keys => ⟨SetValueObject settings.raw edit.2 key (keys.map Key.name)⟩

/-- `ForceCopyAs`, into an object of the type `t` that starts as `fresh`. -/
def ForceCopyAs {α : Type} {tag : SafeJsonTag} (settings : SafeJsonType tag) (t : Ty α)
    (fresh : α) : α :=
  t.deserialize p fresh (some (.object settings.raw))

/-- The member is given what a load makes of `t`; without a value, what it held in `y`. -/
def assignMember (y s : S) (edit : LeafField S × QJsonValue) : S :=
  edit.1.member.set (edit.1.ty.reload p (edit.1.member.get y) edit.2) s

/-- The document changes under the path of one leaf field, so its load changes that member. -/
theorem loadJson_put {c : Clauses S} (separate : c.Separate) {f : LeafField S}
    (listed : f ∈ c.leaves) (v t : QJsonValue) (y : S) :
    c.loadJson p (put v (f.path.map Key.name) t) y =
      assignMember p y (c.loadJson p v y) (f, t) := by
  have beside := c.leaves_beside separate
  have symmetric : Std.Symm fun f g : LeafField S => Beside f.path g.path :=
    ⟨fun _ _ => Beside.symm⟩
  have nodup : c.leaves.Nodup :=
    beside.imp fun apart same => apart.ne (congrArg LeafField.path same)
  have others : ∀ g ∈ c.leaves, g ≠ f →
      LeafField.load p (put v (f.path.map Key.name) t) g = LeafField.load p v g := by
    intro g later other
    have apart := beside.forall listed later other.symm
    funext x
    rw [LeafField.load, LeafField.load, valueUnder_put_of_beside apart]
  have own : f.load p (put v (f.path.map Key.name) t) (f.member.get y) =
      f.ty.reload p (f.member.get y) t := by
    rw [LeafField.load, valueUnder_put]
  rw [c.loadJson_eq_modifyAll, c.loadJson_eq_modifyAll,
    modifyAll_eq_set (c.leaves_pairwise separate) nodup listed others, own]
  rfl

theorem map_stored_names (keys : List QString) :
    (keys.map Key.name).map stored = keys.map Key.name := by
  rw [List.map_map]
  rfl

theorem loadJson_editPath {c : Clauses S} (separate : c.Separate)
    {edit : LeafField S × QJsonValue} (listed : edit.1 ∈ c.leaves) (o : QJsonObject) (y : S) :
    c.loadJson p (editPath (.object o) edit).toValue y =
      assignMember p y (c.loadJson p (some (.object o)) y) edit := by
  obtain ⟨k, -, keys, path⟩ := Clauses.leaf_path edit.1 listed
  have written : (editPath (.object o) edit).toValue =
      put (some (.object o)) (edit.1.path.map Key.name) edit.2 := by
    rw [editPath, path, List.map_cons]
    have fits : IsFor (Parent.object o).toValue (.name k) = true := rfl
    rw [toValue_SetValuePath fits, List.map_cons, map_stored_names]
    rfl
  rw [written]
  exact loadJson_put p separate listed (some (.object o)) edit.2 y

theorem loadJson_editSettings {tag : SafeJsonTag} {c : Clauses S} (separate : c.Separate)
    {edit : LeafField S × QJsonValue} (listed : edit.1 ∈ c.leaves) (settings : SafeJsonType tag)
    (y : S) :
    c.loadJson p (some (.object (editSettings settings edit).raw)) y =
      assignMember p y (c.loadJson p (some (.object settings.raw)) y) edit := by
  obtain ⟨k, -, keys, path⟩ := Clauses.leaf_path edit.1 listed
  have written : some (.object (editSettings settings edit).raw) =
      put (some (.object settings.raw)) (edit.1.path.map Key.name) edit.2 := by
    rw [editSettings, path]
    exact (SetValue_eq_put edit.2 (keys.map Key.name)).2 settings.raw k
  rw [written]
  exact loadJson_put p separate listed (some (.object settings.raw)) edit.2 y

/-- Edits of a document, in any order and as often as one likes, come to the same in the object that
is loaded from it as assignments to the members, one after another. The document is a `QJsonObject`
edited through paths, or settings edited through keys that `ForceCopyAs` reads. -/
theorem loadJson_edits {c : Clauses S} (separate : c.Separate) (y : S)
    (edits : List (LeafField S × QJsonValue)) (listed : ∀ edit ∈ edits, edit.1 ∈ c.leaves) :
    (∀ o : QJsonObject, c.loadJson p (edits.foldl editPath (.object o)).toValue y =
      edits.foldl (assignMember p y) (c.loadJson p (some (.object o)) y)) ∧
    (∀ (tag : SafeJsonTag) (settings : SafeJsonType tag),
      ForceCopyAs p (edits.foldl editSettings settings) (.struct c) y =
        edits.foldl (assignMember p y) (ForceCopyAs p settings (.struct c) y)) := by
  have copied : ∀ (tag : SafeJsonTag) (settings : SafeJsonType tag),
      ForceCopyAs p settings (.struct c) y = c.loadJson p (some (.object settings.raw)) y := by
    intro tag settings
    rw [ForceCopyAs, Ty.deserialize]
  simp only [copied]
  constructor
  · intro o
    induction edits generalizing o with
    | nil => rfl
    | cons edit edits ih =>
        rw [List.forall_mem_cons] at listed
        obtain ⟨o', edited⟩ : ∃ o', editPath (.object o) edit = .object o' := ⟨_, rfl⟩
        rw [List.foldl_cons, List.foldl_cons, ← loadJson_editPath p separate listed.1, edited]
        exact ih listed.2 o'
  · intro tag settings
    induction edits generalizing settings with
    | nil => rfl
    | cons edit edits ih =>
        rw [List.forall_mem_cons] at listed
        rw [List.foldl_cons, List.foldl_cons, ← loadJson_editSettings p separate listed.1]
        exact ih listed.2 (editSettings settings edit)

/-- Every member of a connection's settings is given a number, and then nothing. -/
theorem loadJson_edits_everyMember :
    let leaves := IOConnectionSettings.clauses.leaves
    let edits : List (LeafField IOConnectionSettings × QJsonValue) :=
      leaves.map (fun f => (f, some (.number 443))) ++ leaves.map fun f => (f, none)
    IOConnectionSettings.clauses.loadJson .reference
        (edits.foldl editPath (.object (KeyMap.set ∅ "protocol" (.string "vmess")))).toValue {} =
      edits.foldl (assignMember .reference {}) (IOConnectionSettings.clauses.loadJson .reference
        (some (.object (KeyMap.set ∅ "protocol" (.string "vmess")))) {}) := by
  intro leaves edits
  have separate := IOConnectionSettings.clauses_regular.2.1.separate
  refine (loadJson_edits .reference separate {} edits ?_).1 _
  intro edit member
  rcases List.mem_append.mp member with given | removed
  · obtain ⟨f, listed, rfl⟩ := List.mem_map.mp given
    exact listed
  · obtain ⟨f, listed, rfl⟩ := List.mem_map.mp removed
    exact listed

end Edits

end QvPlugin.Utils
