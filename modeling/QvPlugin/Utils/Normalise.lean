import QvPlugin.Qt.Path
import QvPlugin.Utils.FreshTarget

/-!
Loading any document and saving the result. Where a declared path leads to a value in the
document, it leads to the decoded and encoded value in the result, and to nothing undeclared.
-/

set_option autoImplicit false
set_option relaxedAutoImplicit false

namespace QvPlugin.Utils

open Lib Qt Common

/-- The `F` clauses of the struct or of one of its bases list the key with this type. -/
inductive Clauses.Declares :
    {S : Type} → Clauses S → QString → {α : Type} → Ty α → Prop
  | F {S α : Type} {name : QString} {member : Lens S α} {t : Ty α} {rest : Clauses S} :
      Declares (.F name member t rest) name t
  | restF {S α β : Type} {name k : QString} {member : Lens S α} {t : Ty α} {rest : Clauses S}
      {u : Ty β} (later : Declares rest k u) : Declares (.F name member t rest) k u
  | base {S β γ : Type} {k : QString} {base : Lens S β} {clauses : Clauses β} {rest : Clauses S}
      {u : Ty γ} (inner : Declares clauses k u) : Declares (.B base clauses rest) k u
  | restB {S β γ : Type} {k : QString} {base : Lens S β} {clauses : Clauses β} {rest : Clauses S}
      {u : Ty γ} (later : Declares rest k u) : Declares (.B base clauses rest) k u

/-- A path through struct fields and list positions, and the type found at its end. -/
inductive At : {α : Type} → Ty α → List Key → {β : Type} → Ty β → Prop
  | here {α : Type} (t : Ty α) : At t [] t
  | index {α β : Type} {t : Ty α} {fresh : α} {path : List Key} {u : Ty β} (i : ℕ)
      (inner : At t path u) : At (.list t fresh) (.index i :: path) u
  | key {S α β : Type} {c : Clauses S} {k : QString} {t : Ty α} {path : List Key} {u : Ty β}
      (declares : c.Declares k t) (inner : At t path u) : At (.struct c) (.name k :: path) u

/-- What is left to see of a value at the end of a path: under a key, an empty array or object
is left out. -/
def shown : List Key → QJsonValue → QJsonValue
  | [], v => v
  | [.index _], v => v
  | [.name _], v => if omitted v then none else v
  | _ :: k :: path, v => shown (k :: path) v

/-- The values of the kind that `toJson` writes for the leaf; `int`s and `enum`s in range. -/
def Leaf.WellKinded : {α : Type} → Leaf α → Json → Prop
  | _, .bool, .bool _ => True
  | _, .int, .number q => ∃ x : Int32, q = x.toInt
  | _, .enum _, .number q => ∃ x : Int32, q = x.toInt
  | _, .string, .string _ => True
  | _, .id _, .string _ => True
  | _, .object, .obj .. => True
  | _, .safeJson _, .obj .. => True
  | _, _, _ => False

mutual

def Ty.Ordered : {α : Type} → Ty α → Prop
  | _, .leaf _ => True
  | _, .list t _ => t.Ordered
  | _, @Ty.set _ _ _ _ => False
  | _, .map _ _ => False
  | _, .struct c => c.Ordered

def Clauses.Ordered : {S : Type} → Clauses S → Prop
  | _, .nil => True
  | _, .F _ _ t rest => t.Ordered ∧ rest.Ordered
  | _, @Clauses.P _ _ _ _ _ _ _ _ => False
  | _, .B _ clauses rest => clauses.Ordered ∧ rest.Ordered

end

def Ty.Raw : {α : Type} → Ty α → Prop
  | _, .leaf .object => True
  | _, .leaf (.safeJson _) => True
  | _, _ => False

variable (p : Platform)

section Declares

theorem Clauses.Declares.mem_keys {S α : Type} {c : Clauses S} {k : QString} {t : Ty α}
    (declares : c.Declares k t) : k ∈ c.keys := by
  induction declares with
  | F =>
      rw [Clauses.keys]
      exact List.mem_cons_self
  | restF _ ih =>
      rw [Clauses.keys]
      exact List.mem_cons_of_mem _ ih
  | base _ ih =>
      rw [Clauses.keys]
      exact List.mem_append_left _ ih
  | restB _ ih =>
      rw [Clauses.keys]
      exact List.mem_append_right _ ih

theorem Clauses.Declares.wf {S α : Type} {c : Clauses S} {k : QString} {t : Ty α}
    (declares : c.Declares k t) (wf : c.Wf) : t.Wf := by
  induction declares with
  | F =>
      rw [Clauses.Wf] at wf
      exact wf.1
  | restF _ ih =>
      rw [Clauses.Wf] at wf
      exact ih wf.2.2.2
  | base _ ih =>
      rw [Clauses.Wf] at wf
      exact ih wf.1
  | restB _ ih =>
      rw [Clauses.Wf] at wf
      exact ih wf.2.2.2

/-- A declared key stands for one member, which `toJson` writes and `loadJson` reads there, and
which shares no storage with what the clauses do not touch. -/
theorem Clauses.Declares.exists_member {S α : Type} {c : Clauses S} {k : QString} {t : Ty α}
    (declares : c.Declares k t) (wf : c.Wf) : ∃ member : S → α,
      (∀ s, c.entry p s k = t.written p (member s)) ∧
      (∀ json y, member (c.loadJson p (some (.object json)) y) =
        t.reload p (member y) (json.lookup k)) ∧
      ∀ {γ : Type} (l : Lens S γ), c.Apart l → ∀ a s, member (l.set a s) = member s := by
  induction declares with
  | @F S α name member t rest =>
      have own (json : QJsonObject) (y : S) :=
        (Clauses.F name member t rest).loaded_loadJson p wf json y
      refine ⟨member.get, fun s => ?_, fun json y => ?_, fun l apart a s => ?_⟩
      · rw [Clauses.entry, if_pos rfl]
      · have loaded := own json y
        rw [Clauses.Loaded] at loaded
        exact loaded.1
      · rw [Clauses.Apart] at apart
        exact apart.1.get_set a s
  | @restF S α β name k first t rest u later ih =>
      rw [Clauses.Wf] at wf
      obtain ⟨-, fresh, apart, wfRest⟩ := wf
      obtain ⟨member, entry, load, separate⟩ := ih wfRest
      have other : k ≠ name := fun same => fresh (same ▸ later.mem_keys)
      refine ⟨member, fun s => ?_, fun json y => ?_, fun l apartL a s => ?_⟩
      · rw [Clauses.entry, if_neg other, entry]
      · rw [Clauses.loadJson_F, load, separate first apart]
      · rw [Clauses.Apart] at apartL
        exact separate l apartL.2 a s
  | @base S β γ k base clauses rest u inner ih =>
      rw [Clauses.Wf] at wf
      obtain ⟨wfBase, keys, apart, -⟩ := wf
      obtain ⟨member, entry, load, -⟩ := ih wfBase
      refine ⟨fun s => member (base.get s), fun s => ?_, fun json y => ?_, fun l apartL a s => ?_⟩
      · rw [Clauses.entry, entry, rest.entry_of_not_mem p s (keys k inner.mem_keys), Option.or_none]
      · have reached : base.get ((Clauses.B base clauses rest).loadJson p
            (some (.object json)) y) = clauses.loadJson p (some (.object json)) (base.get y) := by
          rw [Clauses.loadJson, rest.get_loadJson_of_apart p apart, base.get_set]
        exact (congrArg member reached).trans (load json (base.get y))
      · rw [Clauses.Apart] at apartL
        exact congrArg member (apartL.1.get_set a s)
  | @restB S β γ k base clauses rest u later ih =>
      rw [Clauses.Wf] at wf
      obtain ⟨-, keys, apart, wfRest⟩ := wf
      obtain ⟨member, entry, load, separate⟩ := ih wfRest
      have foreign : k ∉ clauses.keys := fun own => keys k own later.mem_keys
      refine ⟨member, fun s => ?_, fun json y => ?_, fun l apartL a s => ?_⟩
      · rw [Clauses.entry, clauses.entry_of_not_mem p _ foreign, Option.none_or, entry]
      · rw [Clauses.loadJson, load, separate base apart]
      · rw [Clauses.Apart] at apartL
        exact separate l apartL.2 a s

end Declares

section Follow

private theorem follow_of_omitted {v : Json} (empty : omitted (some v) = true) (k : Key)
    (path : List Key) : follow (some v) (k :: path) = none := by
  cases v with
  | array a =>
      rw [omitted_array] at empty
      rw [empty, follow_empty_array]
  | object o =>
      rw [omitted_object] at empty
      rw [empty, follow_empty_object]
  | _ => exact follow_scalar rfl rfl k path

private theorem follow_written {α : Type} (t : Ty α) (x : α) (path : List Key) {w : QJsonValue}
    (inside : follow (t.serialize p x) path = shown path w) (k : QString) :
    follow (t.written p x) path = shown (.name k :: path) w := by
  rw [t.serialize_eq_encode] at inside
  rw [Ty.written, t.serialize_eq_encode]
  cases path with
  | nil =>
      rw [follow_nil, shown] at inside
      rw [follow_nil, shown, inside]
  | cons k' path =>
      have tail : shown (.name k :: k' :: path) w = shown (k' :: path) w := by rw [shown]
      rw [tail, ← inside]
      split_ifs with empty
      · rw [follow_none, follow_of_omitted empty]
      · rfl

private theorem shown_index (i : ℕ) (path : List Key) (w : QJsonValue) :
    shown (.index i :: path) w = shown path w := by
  cases path with
  | nil => rfl
  | cons k path => rw [shown]

/-- A path that leads to a value of the document leads to its normalised form in the result. -/
theorem At.follow_eq {α β : Type} {t : Ty α} {path : List Key} {u : Ty β} (leads : At t path u)
    (wf : t.Wf) {d : QJsonValue} {v : Json} (found : follow d path = some v) (y : α) :
    ∃ y', follow (t.serialize p (t.deserialize p y d)) path =
      shown path (u.serialize p (u.deserialize p y' (some v))) := by
  induction leads generalizing d with
  | here t =>
      rw [follow_nil] at found
      exact ⟨y, by rw [follow_nil, shown, found]⟩
  | @index α β t fresh path u i inner ih =>
      rw [Ty.Wf] at wf
      change follow ((toArray d)[i]?).join path = some v at found
      rw [Ty.deserialize_list, Ty.serialize_list, List.map_map, follow_cons, valueAt_array_index,
        List.getElem?_map]
      simp only [shown_index]
      obtain ⟨e, child⟩ := root_of_follow found
      have held : (toArray d)[i]? = some (some e) := Option.join_eq_some_iff.mp child
      rw [child] at found
      rw [held]
      exact ih wf.1 found fresh
  | @key S α β c k t path u declares inner ih =>
      rw [Ty.Wf] at wf
      change follow ((toObject d).lookup k) path = some v at found
      obtain ⟨x, held⟩ := root_of_follow found
      rw [held] at found
      obtain ⟨member, entry, load, -⟩ := declares.exists_member p wf
      obtain ⟨y', inside⟩ := ih (declares.wf wf) found (member y)
      have read : member (c.loadJson p d y) = t.deserialize p (member y) (some x) := by
        rw [eq_object_of_lookup held, load, held]
        rfl
      refine ⟨y', ?_⟩
      rw [Ty.deserialize, Ty.serialize_struct, follow_cons, valueAt_object_name,
        Clauses.lookup_toJson p wf, entry, read]
      exact follow_written p t _ path inside k

theorem Leaf.serialize_deserialize {α : Type} {k : Leaf α} {v : Json} (kinded : k.WellKinded v) :
    k.serialize (k.deserialize p (some v)) = some v := by
  cases k with
  | bool =>
      cases v with
      | bool b => rfl
      | _ => exact False.elim kinded
  | int =>
      cases v with
      | number q =>
          obtain ⟨x, same⟩ := kinded
          rw [same, Leaf.deserialize, toInt_number, Leaf.serialize]
      | _ => exact False.elim kinded
  | enum repr =>
      cases v with
      | number q =>
          obtain ⟨x, same⟩ := kinded
          rw [same, Leaf.deserialize, toInt_number, Leaf.serialize, Equiv.apply_symm_apply]
      | _ => exact False.elim kinded
  | string =>
      cases v with
      | string s => rfl
      | _ => exact False.elim kinded
  | id tag =>
      cases v with
      | string s => rfl
      | _ => exact False.elim kinded
  | object =>
      cases v with
      | object o => rfl
      | _ => exact False.elim kinded
  | safeJson tag =>
      cases v with
      | object o => rfl
      | _ => exact False.elim kinded
  | ulonglong => exact False.elim (by cases v <;> exact kinded)
  | float => exact False.elim (by cases v <;> exact kinded)
  | timePoint => exact False.elim (by cases v <;> exact kinded)

theorem At.follow_leaf_eq {α β : Type} {t : Ty α} {path : List Key} {k : Leaf β}
    (leads : At t path (.leaf k)) (wf : t.Wf) {d : QJsonValue} {v : Json}
    (found : follow d path = some v) (kinded : k.WellKinded v) (y : α) :
    follow (t.serialize p (t.deserialize p y d)) path = shown path (some v) := by
  obtain ⟨y', reached⟩ := leads.follow_eq p wf found y
  rw [reached, Ty.deserialize, Ty.serialize, Leaf.serialize_deserialize p kinded]

theorem At.follow_list_eq {α β : Type} {t : Ty α} {path : List Key} {u : Ty β} {fresh : β}
    (leads : At t path (.list u fresh)) (wf : t.Wf) {d : QJsonValue} {a : QJsonArray}
    (found : follow d path = some (.array a)) (y : α) :
    follow (t.serialize p (t.deserialize p y d)) path = shown path
      (some (.array (a.map fun e => u.serialize p (u.deserialize p fresh e)))) := by
  obtain ⟨y', reached⟩ := leads.follow_eq p wf found y
  rw [reached, Ty.deserialize_list, Ty.serialize_list, toArray_array, List.map_map]
  rfl

end Follow

section Declared

theorem Clauses.declares_of_entry : {S : Type} → (c : Clauses S) → c.Wf → c.Ordered → (s : S) →
    {k : QString} → {v : Json} → c.entry p s k = some v →
    ∃ (α : Type) (t : Ty α) (x : α), c.Declares k t ∧ t.Ordered ∧ t.serialize p x = some v
  | _, .nil, _, _, _, _, _, held => by
      rw [Clauses.entry] at held
      exact absurd held (by simp)
  | _, @Clauses.F S α name member t rest, wf, ordered, s, k, v, held => by
      rw [Clauses.Wf] at wf
      rw [Clauses.Ordered] at ordered
      rw [Clauses.entry] at held
      by_cases same : k = name
      · rw [if_pos same, Ty.written, ← t.serialize_eq_encode] at held
        have written : t.serialize p (member.get s) = some v := by
          split_ifs at held
          exact held
        subst same
        exact ⟨α, t, member.get s, .F, ordered.1, written⟩
      · rw [if_neg same] at held
        obtain ⟨β, u, x, declares, inner, written⟩ :=
          rest.declares_of_entry wf.2.2.2 ordered.2 s held
        exact ⟨β, u, x, .restF declares, inner, written⟩
  | _, @Clauses.P _ _ _ _ _ _ _ _, _, ordered, _, _, _, _ => by
      rw [Clauses.Ordered] at ordered
      exact False.elim ordered
  | _, .B base clauses rest, wf, ordered, s, k, v, held => by
      rw [Clauses.Wf] at wf
      rw [Clauses.Ordered] at ordered
      rw [Clauses.entry, Option.or_eq_some_iff] at held
      rcases held with own | ⟨-, other⟩
      · obtain ⟨β, u, x, declares, inner, written⟩ :=
          clauses.declares_of_entry wf.1 ordered.1 (base.get s) own
        exact ⟨β, u, x, .base declares, inner, written⟩
      · obtain ⟨β, u, x, declares, inner, written⟩ :=
          rest.declares_of_entry wf.2.2.2 ordered.2 s other
        exact ⟨β, u, x, .restB declares, inner, written⟩

private theorem raw_of_follow {α : Type} {k : Leaf α} {x : α} {key : Key} {path : List Key}
    {v : Json} (found : follow (k.serialize x) (key :: path) = some v) : (Ty.leaf k).Raw := by
  cases k with
  | object => trivial
  | safeJson tag => trivial
  | ulonglong =>
      rw [Leaf.serialize, fromULongLong] at found
      split_ifs at found
      · rw [follow_scalar rfl rfl] at found
        exact absurd found (by simp)
      · rw [follow_scalar rfl rfl] at found
        exact absurd found (by simp)
  | id tag =>
      rw [Leaf.serialize, IDType.toJson, follow_scalar rfl rfl] at found
      exact absurd found (by simp)
  | _ =>
      rw [Leaf.serialize, follow_scalar rfl rfl] at found
      exact absurd found (by simp)

/-- Every path in what `toJson` writes is a declared one, or goes on inside a raw object. -/
theorem Ty.declared_of_follow {α : Type} (t : Ty α) (wf : t.Wf) (ordered : t.Ordered) (x : α)
    (path : List Key) {v : Json} (found : follow (t.serialize p x) path = some v) :
    ∃ (declared inside : List Key) (β : Type) (u : Ty β),
      path = declared ++ inside ∧ At t declared u ∧ (inside = [] ∨ u.Raw) := by
  induction path generalizing α t x with
  | nil => exact ⟨[], [], α, t, rfl, .here t, Or.inl rfl⟩
  | cons key path ih =>
      cases t with
      | leaf k =>
          rw [Ty.serialize] at found
          exact ⟨[], key :: path, α, .leaf k, rfl, .here _, Or.inr (raw_of_follow found)⟩
      | list t fresh =>
          rw [Ty.Wf] at wf
          rw [Ty.Ordered] at ordered
          rw [Ty.serialize_list, follow_cons] at found
          cases key with
          | name k =>
              rw [valueAt_array_name, follow_none] at found
              exact absurd found (by simp)
          | index i =>
              rw [valueAt_array_index, List.getElem?_map] at found
              cases held : x[i]? with
              | none =>
                  rw [held, Option.map_none, Option.join_none, follow_none] at found
                  exact absurd found (by simp)
              | some e =>
                  rw [held, Option.map_some, Option.join_some] at found
                  obtain ⟨declared, inside, β, u, split, leads, last⟩ :=
                    ih t wf.1 ordered e found
                  exact ⟨.index i :: declared, inside, β, u, congrArg _ split, .index i leads, last⟩
      | set t fresh =>
          rw [Ty.Ordered] at ordered
          exact False.elim ordered
      | map t fresh =>
          rw [Ty.Ordered] at ordered
          exact False.elim ordered
      | struct c =>
          rw [Ty.Wf] at wf
          rw [Ty.Ordered] at ordered
          rw [Ty.serialize_struct, follow_cons] at found
          cases key with
          | index i =>
              rw [valueAt_object_index, follow_none] at found
              exact absurd found (by simp)
          | name k =>
              rw [valueAt_object_name, Clauses.lookup_toJson p wf] at found
              obtain ⟨w, held⟩ := root_of_follow found
              obtain ⟨β, u, y, declares, inner, written⟩ :=
                c.declares_of_entry p wf ordered x held
              rw [held, ← written] at found
              obtain ⟨declared, inside, γ, last, split, leads, raw⟩ :=
                ih u (declares.wf wf) inner y found
              exact ⟨.name k :: declared, inside, γ, last, congrArg _ split,
                .key declares leads, raw⟩

end Declared

section Idempotent

private theorem map_eq_of_forall₂ {α β : Type} {f : α → β} {xs ys : List α}
    (same : List.Forall₂ (fun x y => f x = f y) xs ys) : xs.map f = ys.map f := by
  induction same with
  | nil => rfl
  | cons head _ ih => rw [List.map_cons, List.map_cons, head, ih]

mutual

theorem Ty.serialize_congr : {α : Type} → (t : Ty α) → t.OnlyFB → {x y : α} → t.Agree x y →
    t.serialize p x = t.serialize p y
  | _, .leaf k, _, x, y, same => by
      rw [Ty.Agree] at same
      rw [same]
  | _, .list t fresh, only, xs, ys, same => by
      rw [Ty.OnlyFB] at only
      rw [Ty.Agree] at same
      rw [Ty.serialize_list, Ty.serialize_list,
        map_eq_of_forall₂ (same.imp fun _ _ h => t.serialize_congr only h)]
  | _, @Ty.set _ _ t fresh, _, s, s', same => by
      rw [Ty.Agree] at same
      rw [same]
  | _, .map t fresh, only, m, m', same => by
      rw [Ty.OnlyFB] at only
      rw [Ty.Agree] at same
      have values : m.mapValues (t.encode p) = m'.mapValues (t.encode p) := by
        ext1 k
        have here := same k
        rw [KeyMap.lookup_mapValues, KeyMap.lookup_mapValues]
        generalize m.lookup k = v, m'.lookup k = v' at here ⊢
        cases here with
        | none => rfl
        | some h =>
            rw [Option.map_some, Option.map_some, Ty.encode, Ty.encode, t.serialize_congr only h]
      rw [Ty.serialize_map, Ty.serialize_map, values]
  | _, .struct c, only, x, y, same => by
      rw [Ty.OnlyFB] at only
      rw [Ty.Agree] at same
      rw [Ty.serialize, Ty.serialize, c.toJsonInto_congr only same]

theorem Clauses.toJsonInto_congr : {S : Type} → (c : Clauses S) → c.OnlyFB → {x y : S} →
    c.Agree x y → (json : QJsonObject) → c.toJsonInto p x json = c.toJsonInto p y json
  | _, .nil, _, _, _, _, _ => by rw [Clauses.toJsonInto, Clauses.toJsonInto]
  | _, .F name member t rest, only, x, y, same, json => by
      rw [Clauses.OnlyFB] at only
      rw [Clauses.Agree] at same
      rw [Clauses.toJsonInto, Clauses.toJsonInto, t.serialize_congr only.1 same.1,
        rest.toJsonInto_congr only.2 same.2]
  | _, @Clauses.P _ _ _ _ _ _ _ _, only, _, _, _, _ => by
      rw [Clauses.OnlyFB] at only
      exact False.elim only
  | _, .B base clauses rest, only, x, y, same, json => by
      rw [Clauses.OnlyFB] at only
      rw [Clauses.Agree] at same
      rw [Clauses.toJsonInto, Clauses.toJsonInto, clauses.toJsonInto_congr only.1 same.1,
        rest.toJsonInto_congr only.2 same.2]

end

theorem Clauses.toJson_loadJson_toJson {S : Type} {c : Clauses S} (wf : c.Wf) (only : c.OnlyFB)
    (plain : c.Plain) {fresh : S} (blank : c.Blank fresh) (x : S) :
    c.toJson p (c.loadJson p (some (.object (c.toJson p x))) fresh) = c.toJson p x := by
  have restorable : c.Restorable fresh x :=
    c.restorable_of_blank blank (Clauses.carried_of_plain plain x)
  have agree := c.agree_of_reloaded p wf (Clauses.reloaded p wf fresh x) restorable
  exact c.toJsonInto_congr p only agree ∅

end Idempotent

end QvPlugin.Utils
