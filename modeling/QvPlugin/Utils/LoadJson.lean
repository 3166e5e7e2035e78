import QvPlugin.Lib.Carry
import QvPlugin.Utils.ClauseSpec

/-!
What `loadJson` leaves in each member. A clause reads the target's own member and one key of
the document, so the members can be followed one by one.
-/

set_option autoImplicit false
set_option relaxedAutoImplicit false

namespace QvPlugin.Utils

open Lib Qt Common

variable (p : Platform)

section Deserialize

private theorem foldl_append_map {α β : Type} (f : β → α) (l : List β) (xs : List α) :
    l.foldl (fun xs val => xs ++ [f val]) xs = xs ++ l.map f := by
  induction l generalizing xs with
  | nil => rw [List.foldl_nil, List.map_nil, List.append_nil]
  | cons b l ih => rw [List.foldl_cons, ih, List.map_cons, List.append_assoc, List.singleton_append]

private theorem foldl_insert_map {α β : Type} [DecidableEq α] (f : β → α) (l : List β)
    (s : Finset α) : l.foldl (fun s val => insert (f val) s) s = s ∪ (l.map f).toFinset := by
  induction l generalizing s with
  | nil => rw [List.foldl_nil, List.map_nil, List.toFinset_nil, Finset.union_empty]
  | cons b l ih =>
      rw [List.foldl_cons, ih, List.map_cons, List.toFinset_cons, Finset.insert_union,
        Finset.union_insert]

theorem Ty.deserialize_list {α : Type} (t : Ty α) (fresh : α) (target : List α) (d : QJsonValue) :
    (Ty.list t fresh).deserialize p target d = (toArray d).map (t.deserialize p fresh) := by
  rw [Ty.deserialize, foldl_append_map, List.nil_append]

theorem Ty.deserialize_set {α : Type} [DecidableEq α] (t : Ty α) (fresh : α) (target : Finset α)
    (d : QJsonValue) : (Ty.set t fresh).deserialize p target d =
      ((toArray d).map (t.deserialize p fresh)).toFinset := by
  rw [Ty.deserialize, foldl_insert_map, Finset.empty_union]

/-- One round of the loop over a map: the value of a key, decoded into what `valueVal` holds. -/
def Ty.decoder {α : Type} (t : Ty α) (j : Json) (valueVal : α) : α :=
  t.deserialize p valueVal (some j)

theorem Ty.deserialize_map {α : Type} (t : Ty α) (fresh : α) (target : KeyMap QString α)
    (d : QJsonValue) : (Ty.map t fresh).deserialize p target d =
      (carry (p.entries ((toObject d).mapValues (t.decoder p))) (fresh, ∅)).2 := by
  rw [Ty.deserialize, p.entries_mapValues]
  unfold carry
  rw [List.foldl_map]
  have loop := (toObject d).foldl_lookup
    (fun (state : α × KeyMap QString α) key value =>
      let valueVal := t.deserialize p state.1 value
      (valueVal, state.2.set key valueVal))
    (fun _ => p.mem_keys.mp) (fresh, ∅)
  exact congrArg Prod.snd loop

end Deserialize

section Loaded

theorem fromJsonField_eq {S : Type} (json : QJsonValue) (name : QString)
    (decode : QJsonValue → S → S) (s : S) : fromJsonField json name decode s =
      ((toObject json).lookup name).elim s fun j => decode (some j) s := by
  rw [fromJsonField, KeyMap.contains]
  cases held : (toObject json).lookup name with
  | none => rfl
  | some j => rw [QJsonObject.subscript_of_lookup held]; rfl

/-- What a member holding `x` holds after its clause has read `v` from the document. -/
def Ty.reload {α : Type} (t : Ty α) (x : α) (v : Option Json) : α :=
  v.elim x fun j => t.deserialize p x (some j)

/-- `z` is `y` after a load, member by member. -/
def Clauses.Loaded : {S : Type} → Clauses S → QJsonObject → S → S → Prop
  | _, .nil, _, _, _ => True
  | _, .F name member t rest, json, y, z =>
      member.get z = t.reload p (member.get y) (json.lookup name) ∧ rest.Loaded json y z
  | _, @Clauses.P _ _ _ name _ member t rest, json, y, z =>
      (member.get z).value = t.reload p (member.get y).value (json.lookup name) ∧
        rest.Loaded json y z
  | _, .B base clauses rest, json, y, z =>
      base.get z = clauses.loadJson p (some (.object json)) (base.get y) ∧ rest.Loaded json y z

theorem Clauses.loadJson_F {S α : Type} (name : QString) (member : Lens S α) (t : Ty α)
    (rest : Clauses S) (json : QJsonValue) (s : S) :
    (Clauses.F name member t rest).loadJson p json s = rest.loadJson p json
      (member.set (t.reload p (member.get s) ((toObject json).lookup name)) s) := by
  rw [Clauses.loadJson, fromJsonField_eq, Ty.reload]
  cases (toObject json).lookup name with
  | none => rw [Option.elim_none, Option.elim_none, member.set_get]
  | some j => rfl

theorem Clauses.loadJson_P {S α : Type} [DecidableEq α] {defaultvalue : α} (name : QString)
    (member : Lens S (Bindable defaultvalue)) (t : Ty α) (rest : Clauses S) (json : QJsonValue)
    (s : S) : (Clauses.P name member t rest).loadJson p json s = rest.loadJson p json
      (member.set ⟨t.reload p (member.get s).value ((toObject json).lookup name)⟩ s) := by
  rw [Clauses.loadJson, fromJsonField_eq, Ty.reload]
  cases (toObject json).lookup name with
  | none => rw [Option.elim_none, Option.elim_none, member.set_get]
  | some j => rfl

theorem Clauses.get_loadJson_of_apart : {S γ : Type} → (c : Clauses S) → {l : Lens S γ} →
    c.Apart l → (json : QJsonValue) → (s : S) → l.get (c.loadJson p json s) = l.get s
  | _, _, .nil, _, _, _, _ => by rw [Clauses.loadJson]
  | _, _, .F name member t rest, l, apart, json, s => by
      rw [Clauses.Apart] at apart
      rw [loadJson_F, rest.get_loadJson_of_apart apart.2, apart.1.symm.get_set]
  | _, _, @Clauses.P _ _ _ name _ member t rest, l, apart, json, s => by
      rw [Clauses.Apart] at apart
      rw [loadJson_P, rest.get_loadJson_of_apart apart.2, apart.1.symm.get_set]
  | _, _, .B base clauses rest, l, apart, json, s => by
      rw [Clauses.Apart] at apart
      rw [Clauses.loadJson, rest.get_loadJson_of_apart apart.2, apart.1.symm.get_set]

private theorem loaded_of_loaded_set : {S γ : Type} → (c : Clauses S) → {l : Lens S γ} →
    c.Apart l → {json : QJsonObject} → {a : γ} → {y z : S} → c.Loaded p json (l.set a y) z →
    c.Loaded p json y z
  | _, _, .nil, _, _, _, _, _, _, _ => by rw [Clauses.Loaded]; trivial
  | _, _, .F name member t rest, l, apart, json, a, y, z, loaded => by
      rw [Clauses.Apart] at apart
      rw [Clauses.Loaded, apart.1.get_set] at loaded
      rw [Clauses.Loaded]
      exact ⟨loaded.1, loaded_of_loaded_set rest apart.2 loaded.2⟩
  | _, _, @Clauses.P _ _ _ name _ member t rest, l, apart, json, a, y, z, loaded => by
      rw [Clauses.Apart] at apart
      rw [Clauses.Loaded, apart.1.get_set] at loaded
      rw [Clauses.Loaded]
      exact ⟨loaded.1, loaded_of_loaded_set rest apart.2 loaded.2⟩
  | _, _, .B base clauses rest, l, apart, json, a, y, z, loaded => by
      rw [Clauses.Apart] at apart
      rw [Clauses.Loaded, apart.1.get_set] at loaded
      rw [Clauses.Loaded]
      exact ⟨loaded.1, loaded_of_loaded_set rest apart.2 loaded.2⟩

/-- `loadJson` member by member. -/
theorem Clauses.loaded_loadJson : {S : Type} → (c : Clauses S) → c.Wf → (json : QJsonObject) →
    (y : S) → c.Loaded p json y (c.loadJson p (some (.object json)) y)
  | _, .nil, _, _, _ => by rw [Clauses.Loaded]; trivial
  | _, .F name member t rest, wf, json, y => by
      rw [Clauses.Wf] at wf
      obtain ⟨-, -, apart, wfRest⟩ := wf
      rw [Clauses.Loaded, loadJson_F, toObject_object, rest.get_loadJson_of_apart p apart,
        member.get_set]
      exact ⟨rfl, loaded_of_loaded_set p rest apart (rest.loaded_loadJson wfRest json _)⟩
  | _, @Clauses.P _ _ _ name _ member t rest, wf, json, y => by
      rw [Clauses.Wf] at wf
      obtain ⟨-, -, apart, wfRest⟩ := wf
      rw [Clauses.Loaded, loadJson_P, toObject_object, rest.get_loadJson_of_apart p apart,
        member.get_set]
      exact ⟨rfl, loaded_of_loaded_set p rest apart (rest.loaded_loadJson wfRest json _)⟩
  | _, .B base clauses rest, wf, json, y => by
      rw [Clauses.Wf] at wf
      obtain ⟨-, -, apart, wfRest⟩ := wf
      rw [Clauses.Loaded, Clauses.loadJson, rest.get_loadJson_of_apart p apart, base.get_set]
      exact ⟨rfl, loaded_of_loaded_set p rest apart (rest.loaded_loadJson wfRest json _)⟩

/-- A load sees the document only through the keys that the clauses list. -/
theorem Clauses.loadJson_congr : {S : Type} → (c : Clauses S) → {json json' : QJsonValue} →
    (∀ k ∈ c.keys, (toObject json).lookup k = (toObject json').lookup k) → (s : S) →
    c.loadJson p json s = c.loadJson p json' s
  | _, .nil, _, _, _, s => by rw [Clauses.loadJson, Clauses.loadJson]
  | _, .F name member t rest, json, json', same, s => by
      rw [Clauses.keys, List.forall_mem_cons] at same
      rw [loadJson_F, loadJson_F, same.1, rest.loadJson_congr same.2]
  | _, @Clauses.P _ _ _ name _ member t rest, json, json', same, s => by
      rw [Clauses.keys, List.forall_mem_cons] at same
      rw [loadJson_P, loadJson_P, same.1, rest.loadJson_congr same.2]
  | _, .B base clauses rest, json, json', same, s => by
      rw [Clauses.keys, List.forall_mem_append] at same
      rw [Clauses.loadJson, Clauses.loadJson, clauses.loadJson_congr same.1,
        rest.loadJson_congr same.2]

end Loaded

end QvPlugin.Utils
