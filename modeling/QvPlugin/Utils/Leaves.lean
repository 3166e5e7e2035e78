import QvPlugin.Lib.ModifyAll
import QvPlugin.Qt.Path
import QvPlugin.Utils.LoadJson

/-!
The leaf fields of a type: the members that a load replaces as a whole, each with the struct
keys that lead to it. Nested structs and bases are patched in place, so a load is one change
for each leaf field, from what the document holds under its path.
-/

set_option autoImplicit false
set_option relaxedAutoImplicit false

namespace QvPlugin.Utils

open Lib Qt Common

/-- The types whose decoder patches the target in place. -/
def Ty.isStruct : {α : Type} → Ty α → Bool
  | _, .struct _ => true
  | _, _ => false

def Bindable.wrapped {α : Type} {defaultvalue : α} : Lens (Bindable defaultvalue) α where
  get := value
  set a _ := ⟨a⟩

/-- A member of `S`, at some depth, that is decoded as a whole. -/
structure LeafField (S : Type) where
  {β : Type}
  path : List QString
  member : Lens S β
  ty : Ty β
  notStruct : ty.isStruct = false

def LeafField.within {S α : Type} (l : Lens S α) (keys : List QString) (f : LeafField α) :
    LeafField S where
  path := keys ++ f.path
  member := l.comp f.member
  ty := f.ty
  notStruct := f.notStruct

mutual

/-- A type that is no struct is its own leaf. -/
def Ty.leaves : {α : Type} → Ty α → List (LeafField α)
  | _, .leaf k => [⟨[], Lens.id, .leaf k, rfl⟩]
  | _, .list t fresh => [⟨[], Lens.id, .list t fresh, rfl⟩]
  | _, @Ty.set _ _ t fresh => [⟨[], Lens.id, .set t fresh, rfl⟩]
  | _, .map t fresh => [⟨[], Lens.id, .map t fresh, rfl⟩]
  | _, .struct c => c.leaves

/-- A base adds no key: its loader reads the same object. -/
def Clauses.leaves : {S : Type} → Clauses S → List (LeafField S)
  | _, .nil => []
  | _, .F name member t rest => t.leaves.map (LeafField.within member [name]) ++ rest.leaves
  | _, @Clauses.P _ _ _ name _ member t rest =>
      t.leaves.map (LeafField.within (member.comp Bindable.wrapped) [name]) ++ rest.leaves
  | _, .B base clauses rest => clauses.leaves.map (LeafField.within base []) ++ rest.leaves

end

mutual

/-- The JSON keys are pairwise distinct across the struct and its bases, and the members share
no storage, at every depth. -/
def Ty.Separate : {α : Type} → Ty α → Prop
  | _, .leaf _ => True
  | _, .list t _ => t.Separate
  | _, @Ty.set _ _ t _ => t.Separate
  | _, .map t _ => t.Separate
  | _, .struct c => c.Separate

def Clauses.Separate : {S : Type} → Clauses S → Prop
  | _, .nil => True
  | _, .F name member t rest =>
      t.Separate ∧ name ∉ rest.keys ∧ rest.Apart member ∧ rest.Separate
  | _, @Clauses.P _ _ _ name _ member t rest =>
      t.Separate ∧ name ∉ rest.keys ∧ rest.Apart member ∧ rest.Separate
  | _, .B base clauses rest =>
      clauses.Separate ∧ (∀ k ∈ clauses.keys, k ∉ rest.keys) ∧ rest.Apart base ∧ rest.Separate

end

mutual

theorem Ty.Wf.separate : {α : Type} → {t : Ty α} → t.Wf → t.Separate
  | _, .leaf _, _ => by rw [Ty.Separate]; trivial
  | _, .list t _, wf => by
      rw [Ty.Wf] at wf
      rw [Ty.Separate]
      exact Ty.Wf.separate wf.1
  | _, @Ty.set _ _ t _, wf => by
      rw [Ty.Wf] at wf
      rw [Ty.Separate]
      exact Ty.Wf.separate wf.1
  | _, .map t _, wf => by
      rw [Ty.Wf] at wf
      rw [Ty.Separate]
      exact Ty.Wf.separate wf.1
  | _, .struct c, wf => by
      rw [Ty.Wf] at wf
      rw [Ty.Separate]
      exact Clauses.Wf.separate wf

theorem Clauses.Wf.separate : {S : Type} → {c : Clauses S} → c.Wf → c.Separate
  | _, .nil, _ => by rw [Clauses.Separate]; trivial
  | _, .F name member t rest, wf => by
      rw [Clauses.Wf] at wf
      obtain ⟨own, fresh, apart, others⟩ := wf
      rw [Clauses.Separate]
      exact ⟨Ty.Wf.separate own, fresh, apart, Clauses.Wf.separate others⟩
  | _, @Clauses.P _ _ _ name _ member t rest, wf => by
      rw [Clauses.Wf] at wf
      obtain ⟨own, fresh, apart, others⟩ := wf
      rw [Clauses.Separate]
      exact ⟨Ty.Wf.separate own, fresh, apart, Clauses.Wf.separate others⟩
  | _, .B base clauses rest, wf => by
      rw [Clauses.Wf] at wf
      obtain ⟨inner, distinct, apart, others⟩ := wf
      rw [Clauses.Separate]
      exact ⟨Clauses.Wf.separate inner, distinct, apart, Clauses.Wf.separate others⟩

end

/-- No two leaf fields share storage, as no two members of a C++ object do. -/
def Ty.OwnStorage {α : Type} (t : Ty α) : Prop :=
  t.leaves.Pairwise fun f g => f.member.Apart g.member

section Pairwise

theorem Clauses.Apart.leaf : {S γ : Type} → {c : Clauses S} → {l : Lens S γ} → c.Apart l →
    ∀ f ∈ c.leaves, l.Apart f.member
  | _, _, .nil, _, _, f, member => by
      rw [Clauses.leaves] at member
      exact absurd member List.not_mem_nil
  | _, _, .F name m t rest, l, apart, f, member => by
      rw [Clauses.Apart] at apart
      rw [Clauses.leaves, List.mem_append, List.mem_map] at member
      rcases member with ⟨g, -, rfl⟩ | later
      · exact apart.1.comp_right g.member
      · exact Clauses.Apart.leaf apart.2 f later
  | _, _, @Clauses.P _ _ _ name _ m t rest, l, apart, f, member => by
      rw [Clauses.Apart] at apart
      rw [Clauses.leaves, List.mem_append, List.mem_map] at member
      rcases member with ⟨g, -, rfl⟩ | later
      · exact (apart.1.comp_right Bindable.wrapped).comp_right g.member
      · exact Clauses.Apart.leaf apart.2 f later
  | _, _, .B base clauses rest, l, apart, f, member => by
      rw [Clauses.Apart] at apart
      rw [Clauses.leaves, List.mem_append, List.mem_map] at member
      rcases member with ⟨g, -, rfl⟩ | later
      · exact apart.1.comp_right g.member
      · exact Clauses.Apart.leaf apart.2 f later

private theorem pairwise_append_of_apart {S α : Type} {l : Lens S α} {keys : List QString}
    {inner : List (LeafField α)} {rest : Clauses S}
    (innerSeparate : inner.Pairwise fun f g => f.member.Apart g.member)
    (apart : ∀ g ∈ rest.leaves, l.Apart g.member)
    (restSeparate : rest.leaves.Pairwise fun f g => f.member.Apart g.member) :
    (inner.map (LeafField.within l keys) ++ rest.leaves).Pairwise
      fun f g => f.member.Apart g.member := by
  rw [List.pairwise_append, List.pairwise_map]
  refine ⟨innerSeparate.imp fun separate => separate.comp_inner l, restSeparate, ?_⟩
  intro f member g later
  obtain ⟨f', -, rfl⟩ := List.mem_map.mp member
  exact (apart g later).comp_left f'.member

mutual

theorem Ty.leaves_pairwise : {α : Type} → (t : Ty α) → t.Separate →
    t.leaves.Pairwise fun f g => f.member.Apart g.member
  | _, .leaf _, _ => by rw [Ty.leaves]; exact List.pairwise_singleton _ _
  | _, .list _ _, _ => by rw [Ty.leaves]; exact List.pairwise_singleton _ _
  | _, @Ty.set _ _ _ _, _ => by rw [Ty.leaves]; exact List.pairwise_singleton _ _
  | _, .map _ _, _ => by rw [Ty.leaves]; exact List.pairwise_singleton _ _
  | _, .struct c, separate => by
      rw [Ty.Separate] at separate
      rw [Ty.leaves]
      exact c.leaves_pairwise separate

theorem Clauses.leaves_pairwise : {S : Type} → (c : Clauses S) → c.Separate →
    c.leaves.Pairwise fun f g => f.member.Apart g.member
  | _, .nil, _ => by rw [Clauses.leaves]; exact List.Pairwise.nil
  | _, .F name member t rest, separate => by
      rw [Clauses.Separate] at separate
      obtain ⟨own, -, apart, others⟩ := separate
      rw [Clauses.leaves]
      exact pairwise_append_of_apart (t.leaves_pairwise own) apart.leaf
        (rest.leaves_pairwise others)
  | _, @Clauses.P _ _ _ name _ member t rest, separate => by
      rw [Clauses.Separate] at separate
      obtain ⟨own, -, apart, others⟩ := separate
      have wrapped : ∀ g ∈ rest.leaves, (member.comp Bindable.wrapped).Apart g.member :=
        fun g later => (apart.leaf g later).comp_left Bindable.wrapped
      rw [Clauses.leaves]
      exact pairwise_append_of_apart (t.leaves_pairwise own) wrapped (rest.leaves_pairwise others)
  | _, .B base clauses rest, separate => by
      rw [Clauses.Separate] at separate
      obtain ⟨inner, -, apart, others⟩ := separate
      rw [Clauses.leaves]
      exact pairwise_append_of_apart (clauses.leaves_pairwise inner) apart.leaf
        (rest.leaves_pairwise others)

end

theorem Ty.Separate.ownStorage {α : Type} {t : Ty α} (separate : t.Separate) : t.OwnStorage :=
  t.leaves_pairwise separate

end Pairwise

variable (p : Platform)

section Load

def LeafField.load {S : Type} (v : QJsonValue) (f : LeafField S) (x : f.β) : f.β :=
  f.ty.reload p x (valueUnder v f.path)

theorem LeafField.load_of_absent {S : Type} {v : QJsonValue} {f : LeafField S}
    (absent : valueUnder v f.path = none) (x : f.β) : f.load p v x = x := by
  unfold LeafField.load Ty.reload
  rw [absent, Option.elim_none]

theorem Ty.deserialize_of_notStruct {α : Type} {t : Ty α} (notStruct : t.isStruct = false)
    (x y : α) (d : QJsonValue) : t.deserialize p x d = t.deserialize p y d := by
  cases t with
  | leaf k => rw [Ty.deserialize, Ty.deserialize]
  | list t fresh => rw [Ty.deserialize, Ty.deserialize]
  | set t fresh => rw [Ty.deserialize, Ty.deserialize]
  | map t fresh => rw [Ty.deserialize, Ty.deserialize]
  | struct c => exact absurd notStruct (by rw [Ty.isStruct]; exact Bool.noConfusion)

theorem LeafField.load_of_present {S : Type} {v : QJsonValue} {f : LeafField S} {j : Json}
    (present : valueUnder v f.path = some j) (x y : f.β) : f.load p v x = f.load p v y := by
  unfold LeafField.load Ty.reload
  rw [present, Option.elim_some, Option.elim_some]
  exact Ty.deserialize_of_notStruct p f.notStruct x y (some j)

theorem Clauses.loadJson_of_empty : {S : Type} → (c : Clauses S) → {json : QJsonValue} →
    toObject json = ∅ → (s : S) → c.loadJson p json s = s
  | _, .nil, _, _, s => by rw [Clauses.loadJson]
  | _, .F name member t rest, json, blank, s => by
      rw [loadJson_F, blank, KeyMap.lookup_empty, Ty.reload, Option.elim_none, member.set_get]
      exact rest.loadJson_of_empty blank s
  | _, @Clauses.P _ _ _ name _ member t rest, json, blank, s => by
      rw [loadJson_P, blank, KeyMap.lookup_empty, Ty.reload, Option.elim_none]
      show rest.loadJson p json (member.set (member.get s) s) = s
      rw [member.set_get]
      exact rest.loadJson_of_empty blank s
  | _, .B base clauses rest, json, blank, s => by
      rw [Clauses.loadJson, clauses.loadJson_of_empty blank, base.set_get]
      exact rest.loadJson_of_empty blank s

private theorem modifyAll_within {S α : Type} (l : Lens S α) (keys : List QString)
    (json v : QJsonValue) (below : ∀ path, valueUnder json (keys ++ path) = valueUnder v path)
    (inner : List (LeafField α)) (s : S) :
    modifyAll LeafField.member (LeafField.load p json) (inner.map (LeafField.within l keys)) s =
      l.set (modifyAll LeafField.member (LeafField.load p v) inner (l.get s)) s := by
  rw [modifyAll_map, ← modifyAll_comp]
  congr 1
  funext f x
  show f.ty.reload p x (valueUnder json (keys ++ f.path)) = f.ty.reload p x (valueUnder v f.path)
  rw [below]

mutual

/-- Loading a value is one change for each leaf field. -/
theorem Ty.reload_eq_modifyAll : {α : Type} → (t : Ty α) → (x : α) → (v : QJsonValue) →
    t.reload p x v = modifyAll LeafField.member (LeafField.load p v) t.leaves x
  | _, .leaf _, _, _ => by rw [Ty.leaves]; rfl
  | _, .list _ _, _, _ => by rw [Ty.leaves]; rfl
  | _, @Ty.set _ _ _ _, _, _ => by rw [Ty.leaves]; rfl
  | _, .map _ _, _, _ => by rw [Ty.leaves]; rfl
  | _, .struct c, x, v => by
      rw [Ty.leaves, ← c.loadJson_eq_modifyAll, Ty.reload]
      cases v with
      | none => rw [Option.elim_none, c.loadJson_of_empty p rfl]
      | some j => rw [Option.elim_some, Ty.deserialize]

theorem Clauses.loadJson_eq_modifyAll : {S : Type} → (c : Clauses S) → (json : QJsonValue) →
    (s : S) → c.loadJson p json s =
      modifyAll LeafField.member (LeafField.load p json) c.leaves s
  | _, .nil, _, _ => by rw [Clauses.loadJson, Clauses.leaves, modifyAll_nil]
  | _, .F name member t rest, json, s => by
      rw [Clauses.loadJson_F, rest.loadJson_eq_modifyAll, t.reload_eq_modifyAll, Clauses.leaves,
        modifyAll_append, modifyAll_within p member [name] json _ (fun _ => rfl)]
      rfl
  | _, @Clauses.P _ _ _ name _ member t rest, json, s => by
      rw [Clauses.loadJson_P, rest.loadJson_eq_modifyAll, t.reload_eq_modifyAll, Clauses.leaves,
        modifyAll_append,
        modifyAll_within p (member.comp Bindable.wrapped) [name] json _ (fun _ => rfl)]
      rfl
  | _, .B base clauses rest, json, s => by
      rw [Clauses.loadJson, rest.loadJson_eq_modifyAll, clauses.loadJson_eq_modifyAll,
        Clauses.leaves, modifyAll_append, modifyAll_within p base [] json json (fun _ => rfl)]

end

end Load

end QvPlugin.Utils
