import QvPlugin.Utils.ClauseSpec

/-!
What `toJson` writes, key by key. `Serialize` always yields a defined value, so a list, a set
or a map is encoded element by element, and each key of a struct is written by one clause.
-/

set_option autoImplicit false
set_option relaxedAutoImplicit false

namespace QvPlugin.Utils

open Lib Qt Common

variable (p : Platform)

section Serialize

def Ty.encode {α : Type} (t : Ty α) (x : α) : Json := (t.serialize p x).getD .null

theorem Ty.serialize_eq_encode {α : Type} (t : Ty α) (x : α) :
    t.serialize p x = some (t.encode p x) := by
  have defined : (t.serialize p x).isSome = true := by
    cases t with
    | leaf k =>
        rw [Ty.serialize]
        cases k with
        | ulonglong =>
            rw [Leaf.serialize, fromULongLong]
            split_ifs <;> rfl
        | _ => rfl
    | list t fresh => rw [Ty.serialize]; rfl
    | set t fresh => rw [Ty.serialize]; rfl
    | map t fresh => rw [Ty.serialize]; rfl
    | struct c => rw [Ty.serialize]; rfl
  obtain ⟨j, held⟩ := Option.isSome_iff_exists.mp defined
  rw [Ty.encode, held, Option.getD_some]

private theorem foldl_append_serialize {α : Type} (t : Ty α) (xs : List α) (a : QJsonArray) :
    xs.foldl (fun listObject item => QJsonArray.append listObject (t.serialize p item)) a =
      a ++ xs.map (t.serialize p) := by
  induction xs generalizing a with
  | nil => rw [List.foldl_nil, List.map_nil, List.append_nil]
  | cons x xs ih =>
      have step : QJsonArray.append a (t.serialize p x) = a ++ [t.serialize p x] := by
        rw [QJsonArray.append, t.serialize_eq_encode, Option.getD_some]
      rw [List.foldl_cons, step, ih, List.map_cons, List.append_assoc, List.singleton_append]

theorem Ty.serialize_list {α : Type} (t : Ty α) (fresh : α) (xs : List α) :
    (Ty.list t fresh).serialize p xs = some (.array (xs.map (t.serialize p))) := by
  rw [Ty.serialize, foldl_append_serialize, List.nil_append]

theorem Ty.serialize_set {α : Type} [DecidableEq α] (t : Ty α) (fresh : α) (s : Finset α) :
    (Ty.set t fresh).serialize p s = some (.array ((p.setOrder s).map (t.serialize p))) := by
  rw [Ty.serialize, foldl_append_serialize, List.nil_append]

theorem Ty.serialize_map {α : Type} (t : Ty α) (fresh : α) (m : KeyMap QString α) :
    (Ty.map t fresh).serialize p m = some (.object (m.mapValues (t.encode p))) := by
  have step (mapObject : QJsonObject) (e : QString × α) :
      QJsonObject.insert mapObject e.1 (t.serialize p e.2) =
        mapObject.set e.1 (t.encode p e.2) := by
    rw [t.serialize_eq_encode, QJsonObject.insert]
  rw [Ty.serialize]
  simp only [step]
  congr 2
  have loop : m.entries.foldl (fun mapObject e => KeyMap.set mapObject e.1 (t.encode p e.2)) ∅ =
      (m.mapValues (t.encode p)).entries.foldl (fun mapObject e => mapObject.set e.1 e.2) ∅ := by
    rw [KeyMap.entries_mapValues, List.foldl_map]
  rw [loop, KeyMap.foldl_set_entries]

theorem Ty.serialize_struct {S : Type} (c : Clauses S) (s : S) :
    (Ty.struct c).serialize p s = some (.object (c.toJson p s)) := by
  rw [Ty.serialize, Clauses.toJson]

end Serialize

section Entry

def Ty.written {α : Type} (t : Ty α) (x : α) : Option Json :=
  if omitted (t.serialize p x) then none else some (t.encode p x)

/-- What the clause of a key writes under it. -/
def Clauses.entry : {S : Type} → Clauses S → S → QString → Option Json
  | _, .nil, _, _ => none
  | _, .F name member t rest, s, k => if k = name then t.written p (member.get s) else rest.entry s k
  | _, @Clauses.P _ _ _ name _ member t rest, s, k =>
      if k = name then
        if (member.get s).isDefault then none else t.written p (member.get s).value
      else rest.entry s k
  | _, .B base clauses rest, s, k => (clauses.entry (base.get s) k).or (rest.entry s k)

theorem Clauses.entry_of_not_mem : {S : Type} → (c : Clauses S) → (s : S) → {k : QString} →
    k ∉ c.keys → c.entry p s k = none
  | _, .nil, _, _, _ => by rw [Clauses.entry]
  | _, .F name member t rest, s, k, absent => by
      rw [Clauses.keys, List.mem_cons, not_or] at absent
      rw [Clauses.entry, if_neg absent.1, rest.entry_of_not_mem s absent.2]
  | _, @Clauses.P _ _ _ name _ member t rest, s, k, absent => by
      rw [Clauses.keys, List.mem_cons, not_or] at absent
      rw [Clauses.entry, if_neg absent.1, rest.entry_of_not_mem s absent.2]
  | _, .B base clauses rest, s, k, absent => by
      rw [Clauses.keys, List.mem_append, not_or] at absent
      rw [Clauses.entry, clauses.entry_of_not_mem _ absent.1, rest.entry_of_not_mem s absent.2,
        Option.none_or]

private theorem lookup_toJsonField {α : Type} (json : QJsonObject) (name : QString) (t : Ty α)
    (x : α) (k : QString) : (toJsonField json name (t.serialize p x)).lookup k =
      if k = name then (t.written p x).or (json.lookup k) else json.lookup k := by
  rw [toJsonField, Ty.written]
  cases omitted (t.serialize p x) with
  | true => simp
  | false => simp [t.serialize_eq_encode, QJsonObject.insert]

private theorem lookup_toJsonInto_of_ownKey {S : Type} {rest : Clauses S} {s : S}
    {json json' : QJsonObject} {name : QString} {w : Option Json}
    (ih : ∀ json : QJsonObject, (∀ k ∈ rest.keys, json.lookup k = none) → ∀ k,
      (rest.toJsonInto p s json).lookup k = (rest.entry p s k).or (json.lookup k))
    (fresh : name ∉ rest.keys) (blank : ∀ k ∈ rest.keys, json.lookup k = none)
    (own : ∀ k, json'.lookup k = if k = name then w.or (json.lookup k) else json.lookup k)
    (k : QString) : (rest.toJsonInto p s json').lookup k =
      (if k = name then w else rest.entry p s k).or (json.lookup k) := by
  have blankRest : ∀ k ∈ rest.keys, json'.lookup k = none := by
    intro k hk
    have other : k ≠ name := fun same => fresh (same ▸ hk)
    rw [own, if_neg other, blank k hk]
  rw [ih json' blankRest, own]
  by_cases same : k = name
  · subst same
    rw [rest.entry_of_not_mem p s fresh, Option.none_or, if_pos rfl, if_pos rfl]
  · rw [if_neg same, if_neg same]

theorem Clauses.lookup_toJsonInto : {S : Type} → (c : Clauses S) → c.Wf → (s : S) →
    (json : QJsonObject) → (∀ k ∈ c.keys, json.lookup k = none) → (k : QString) →
    (c.toJsonInto p s json).lookup k = (c.entry p s k).or (json.lookup k)
  | _, .nil, _, _, json, _, k => by rw [Clauses.toJsonInto, Clauses.entry, Option.none_or]
  | _, .F name member t rest, wf, s, json, blank, k => by
      rw [Clauses.Wf] at wf
      obtain ⟨-, fresh, -, wfRest⟩ := wf
      rw [Clauses.keys, List.forall_mem_cons] at blank
      rw [Clauses.toJsonInto, Clauses.entry]
      exact lookup_toJsonInto_of_ownKey p (fun json => rest.lookup_toJsonInto wfRest s json) fresh
        blank.2 (lookup_toJsonField p json name t (member.get s)) k
  | _, @Clauses.P _ _ _ name _ member t rest, wf, s, json, blank, k => by
      rw [Clauses.Wf] at wf
      obtain ⟨-, fresh, -, wfRest⟩ := wf
      rw [Clauses.keys, List.forall_mem_cons] at blank
      rw [Clauses.toJsonInto, Clauses.entry]
      apply lookup_toJsonInto_of_ownKey p (fun json => rest.lookup_toJsonInto wfRest s json) fresh
        blank.2
      intro k
      cases (member.get s).isDefault with
      | true =>
          rw [Bool.not_true, if_neg (by decide), if_pos rfl, Option.none_or, ite_self]
      | false =>
          rw [Bool.not_false, if_pos rfl, if_neg Bool.false_ne_true, lookup_toJsonField]
  | _, .B base clauses rest, wf, s, json, blank, k => by
      rw [Clauses.Wf] at wf
      obtain ⟨wfBase, separate, -, wfRest⟩ := wf
      rw [Clauses.keys, List.forall_mem_append] at blank
      have inner (k : QString) : (clauses.toJsonInto p (base.get s) ∅).lookup k =
          clauses.entry p (base.get s) k := by
        rw [clauses.lookup_toJsonInto wfBase _ ∅ (fun k _ => KeyMap.lookup_empty k),
          KeyMap.lookup_empty, Option.or_none]
      have merged (k : QString) :
          (mergeJson json (some (.object (clauses.toJsonInto p (base.get s) ∅)))).lookup k =
            (clauses.entry p (base.get s) k).or (json.lookup k) := by
        rw [lookup_mergeJson_of_disjoint, inner]
        by_cases hk : k ∈ clauses.keys
        · exact Or.inl (blank.1 k hk)
        · exact Or.inr (by rw [inner, clauses.entry_of_not_mem p _ hk])
      have blankRest : ∀ k ∈ rest.keys,
          (mergeJson json (some (.object (clauses.toJsonInto p (base.get s) ∅)))).lookup k =
            none := by
        intro k hk
        have foreign : k ∉ clauses.keys := fun own => separate k own hk
        rw [merged, clauses.entry_of_not_mem p _ foreign, blank.2 k hk, Option.none_or]
      rw [Clauses.toJsonInto, rest.lookup_toJsonInto wfRest s _ blankRest, merged, Clauses.entry]
      by_cases own : k ∈ clauses.keys
      · rw [rest.entry_of_not_mem p s (separate k own), Option.none_or, Option.or_none]
      · rw [clauses.entry_of_not_mem p _ own, Option.none_or, Option.none_or]

/-- `toJson` key by key. -/
theorem Clauses.lookup_toJson {S : Type} {c : Clauses S} (wf : c.Wf) (s : S) (k : QString) :
    (c.toJson p s).lookup k = c.entry p s k := by
  rw [Clauses.toJson, c.lookup_toJsonInto p wf s ∅ (fun k _ => KeyMap.lookup_empty k),
    KeyMap.lookup_empty, Option.or_none]

def Clauses.Written {S : Type} (c : Clauses S) (s : S) (json : QJsonObject) : Prop :=
  ∀ k ∈ c.keys, json.lookup k = c.entry p s k

theorem Clauses.written_toJson {S : Type} {c : Clauses S} (wf : c.Wf) (s : S) :
    c.Written p s (c.toJson p s) := fun k _ => lookup_toJson p wf s k

variable {p}

theorem Clauses.Written.of_F {S α : Type} {name : QString} {member : Lens S α} {t : Ty α}
    {rest : Clauses S} {s : S} {json : QJsonObject} (fresh : name ∉ rest.keys)
    (written : (Clauses.F name member t rest).Written p s json) :
    json.lookup name = t.written p (member.get s) ∧ rest.Written p s json := by
  constructor
  · have own := written name (by rw [Clauses.keys]; exact List.mem_cons_self)
    rwa [Clauses.entry, if_pos rfl] at own
  · intro k hk
    have other : k ≠ name := fun same => fresh (same ▸ hk)
    have listed := written k (by rw [Clauses.keys]; exact List.mem_cons_of_mem _ hk)
    rwa [Clauses.entry, if_neg other] at listed

theorem Clauses.Written.of_P {S α : Type} [DecidableEq α] {name : QString} {defaultvalue : α}
    {member : Lens S (Bindable defaultvalue)} {t : Ty α} {rest : Clauses S} {s : S}
    {json : QJsonObject} (fresh : name ∉ rest.keys)
    (written : (Clauses.P name member t rest).Written p s json) :
    json.lookup name =
        (if (member.get s).isDefault then none else t.written p (member.get s).value) ∧
      rest.Written p s json := by
  constructor
  · have own := written name (by rw [Clauses.keys]; exact List.mem_cons_self)
    rwa [Clauses.entry, if_pos rfl] at own
  · intro k hk
    have other : k ≠ name := fun same => fresh (same ▸ hk)
    have listed := written k (by rw [Clauses.keys]; exact List.mem_cons_of_mem _ hk)
    rwa [Clauses.entry, if_neg other] at listed

theorem Clauses.Written.of_B {S β : Type} {base : Lens S β} {clauses : Clauses β}
    {rest : Clauses S} {s : S} {json : QJsonObject} (separate : ∀ k ∈ clauses.keys, k ∉ rest.keys)
    (written : (Clauses.B base clauses rest).Written p s json) :
    clauses.Written p (base.get s) json ∧ rest.Written p s json := by
  constructor
  · intro k hk
    have listed := written k (by rw [Clauses.keys]; exact List.mem_append_left _ hk)
    rwa [Clauses.entry, rest.entry_of_not_mem p s (separate k hk), Option.or_none] at listed
  · intro k hk
    have foreign : k ∉ clauses.keys := fun own => separate k own hk
    have listed := written k (by rw [Clauses.keys]; exact List.mem_append_right _ hk)
    rwa [Clauses.entry, clauses.entry_of_not_mem p _ foreign, Option.none_or] at listed

end Entry

section Omitted

@[simp] theorem omitted_array (a : QJsonArray) : omitted (some (.array a)) = true ↔ a = [] := by
  simp [omitted]

@[simp] theorem omitted_object (o : QJsonObject) : omitted (some (.object o)) = true ↔ o = ∅ := by
  simp [omitted, KeyMap.isEmpty_iff]

private theorem Leaf.omitted_serialize {α : Type} (k : Leaf α) (x : α) :
    omitted (k.serialize x) = true ↔ k.Omitted x := by
  cases k with
  | object => exact omitted_object x
  | safeJson tag => exact omitted_object x.raw
  | ulonglong =>
      rw [Leaf.serialize, fromULongLong]
      simp only [Leaf.Omitted]
      split_ifs <;> simp [omitted, isArray, isObject]
  | _ => simp [Leaf.serialize, Leaf.Omitted, omitted, isArray, isObject, IDType.toJson]

private theorem forall_entry_eq_none_iff {S : Type} {c rest : Clauses S} {s : S} {name : QString}
    {w : Option Json} (fresh : name ∉ rest.keys)
    (entry : ∀ k, c.entry p s k = if k = name then w else rest.entry p s k) :
    (∀ k, c.entry p s k = none) ↔ w = none ∧ ∀ k, rest.entry p s k = none := by
  constructor
  · intro silent
    have own := silent name
    rw [entry, if_pos rfl] at own
    refine ⟨own, fun k => ?_⟩
    by_cases same : k = name
    · rw [same, rest.entry_of_not_mem p s fresh]
    · have other := silent k
      rwa [entry, if_neg same] at other
  · rintro ⟨own, others⟩ k
    rw [entry, own, others, ite_self]

private theorem written_eq_none_iff {α : Type} {t : Ty α} {x : α} :
    t.written p x = none ↔ omitted (t.serialize p x) = true := by
  rw [Ty.written]
  split_ifs with h <;> simp [h]

mutual

/-- `__TOJSON_F` leaves out exactly the values with an empty serialisation. -/
theorem Ty.omitted_serialize : {α : Type} → (t : Ty α) → t.Wf → (x : α) →
    (omitted (t.serialize p x) = true ↔ t.Omitted x)
  | _, .leaf k, _, x => by
      rw [Ty.serialize, Ty.Omitted]
      exact k.omitted_serialize x
  | _, .list t fresh, _, xs => by
      rw [Ty.serialize_list, omitted_array, List.map_eq_nil_iff, Ty.Omitted]
  | _, @Ty.set _ _ t fresh, _, s => by
      rw [Ty.serialize_set, omitted_array, List.map_eq_nil_iff, Ty.Omitted]
      constructor
      · intro none
        rw [Finset.eq_empty_iff_forall_notMem]
        intro x hx
        have listed : x ∈ p.setOrder s := (p.mem_setOrder s x).mpr hx
        rw [none] at listed
        exact List.not_mem_nil listed
      · intro none
        rw [List.eq_nil_iff_forall_not_mem]
        intro x hx
        have held : x ∈ s := (p.mem_setOrder s x).mp hx
        rw [none] at held
        exact Finset.notMem_empty x held
  | _, .map t fresh, _, m => by
      rw [Ty.serialize_map, omitted_object, ← KeyMap.isEmpty_iff, KeyMap.isEmpty,
        Ty.Omitted, ← KeyMap.isEmpty_iff, KeyMap.isEmpty]
      rfl
  | _, .struct c, wf, s => by
      rw [Ty.Wf] at wf
      rw [Ty.serialize_struct, omitted_object, Ty.Omitted, ← c.entry_eq_none_iff wf s]
      constructor
      · intro none k
        rw [← Clauses.lookup_toJson p wf, none, KeyMap.lookup_empty]
      · intro none
        ext1 k
        rw [Clauses.lookup_toJson p wf, none, KeyMap.lookup_empty]

theorem Clauses.entry_eq_none_iff : {S : Type} → (c : Clauses S) → c.Wf → (s : S) →
    ((∀ k, c.entry p s k = none) ↔ c.Omitted s)
  | _, .nil, _, _ => by simp [Clauses.entry, Clauses.Omitted]
  | _, .F name member t rest, wf, s => by
      rw [Clauses.Wf] at wf
      obtain ⟨wfT, fresh, -, wfRest⟩ := wf
      rw [Clauses.Omitted, ← t.omitted_serialize wfT, ← rest.entry_eq_none_iff wfRest,
        ← written_eq_none_iff]
      exact forall_entry_eq_none_iff p fresh (fun k => by rw [Clauses.entry])
  | _, @Clauses.P _ _ _ name _ member t rest, wf, s => by
      rw [Clauses.Wf] at wf
      obtain ⟨wfT, fresh, -, wfRest⟩ := wf
      rw [Clauses.Omitted, ← t.omitted_serialize wfT, ← rest.entry_eq_none_iff wfRest,
        ← written_eq_none_iff]
      rw [forall_entry_eq_none_iff p fresh (fun k => by rw [Clauses.entry])]
      cases (member.get s).isDefault <;> simp
  | _, .B base clauses rest, wf, s => by
      rw [Clauses.Wf] at wf
      obtain ⟨wfBase, -, -, wfRest⟩ := wf
      rw [Clauses.Omitted, ← clauses.entry_eq_none_iff wfBase, ← rest.entry_eq_none_iff wfRest,
        ← forall_and]
      apply forall_congr'
      intro k
      rw [Clauses.entry, Option.or_eq_none_iff]

end

end Omitted

end QvPlugin.Utils
