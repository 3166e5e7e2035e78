import Mathlib.Data.List.Basic
import Mathlib.Data.List.Nodup
import Mathlib.Data.List.ModifyLast
import Mathlib.Logic.Basic

/-!
Objects that own other objects: each has an identity and a parent, or none, which it keeps, and a
value that changes. The objects stand in the order of their creation, and so do the children of one.
-/

set_option autoImplicit false
set_option relaxedAutoImplicit false

namespace QvPlugin.Lib

universe u v w

structure Node (ι : Type u) (α : Type v) where
  id : ι
  parent : Option ι
  value : α
  deriving DecidableEq

/-- The identity of the object's root, where no parent has a parent. -/
def Node.owner {ι : Type u} {α : Type v} (n : Node ι α) : ι := n.parent.getD n.id

structure Forest (ι : Type u) (α : Type v) where
  nodes : List (Node ι α)
  distinct : (nodes.map Node.id).Nodup
  deriving DecidableEq

namespace Forest

variable {ι : Type u} {α : Type v} {β : Type w}

@[ext] theorem ext {F G : Forest ι α} (same : F.nodes = G.nodes) : F = G := by
  obtain ⟨nodes, _⟩ := F
  obtain ⟨_, _⟩ := G
  subst same
  rfl

def empty : Forest ι α := ⟨[], List.nodup_nil⟩

def ids (F : Forest ι α) : List ι := F.nodes.map Node.id

def update (F : Forest ι α) (f : Node ι α → α) : Forest ι α where
  nodes := F.nodes.map fun n => { n with value := f n }
  distinct := by
    rw [List.map_map]
    exact F.distinct

variable [DecidableEq ι]

def node? (F : Forest ι α) (x : ι) : Option (Node ι α) := F.nodes.find? fun n => n.id = x

def children (F : Forest ι α) (x : ι) : List (Node ι α) := F.nodes.filter fun n => n.parent = some x

def values (F : Forest ι α) (x : ι) : List α := (F.children x).map Node.value

def index (F : Forest ι α) (x y : ι) : ℕ := (F.children x).findIdx fun n => n.id = y

/-- The first child that is looked for, or else the first below the children, down to a depth. -/
def findChild (F : Forest ι α) (q : α → Bool) : ℕ → ι → Option ι
  | 0, x => ((F.children x).find? fun n => q n.value).map Node.id
  | depth + 1, x => (((F.children x).find? fun n => q n.value).map Node.id).or
      ((F.children x).findSome? fun n => F.findChild q depth n.id)

def modify (F : Forest ι α) (x : ι) (f : α → α) : Forest ι α :=
  F.update fun n => if n.id = x then f n.value else n.value

def add (F : Forest ι α) (n : Node ι α) : Forest ι α :=
  if fresh : n.id ∈ F.ids then F
  else
    { nodes := F.nodes ++ [n]
      distinct := by
        rw [List.map_append, List.nodup_append_comm]
        exact List.nodup_cons.mpr ⟨fresh, F.distinct⟩ }

def part (F : Forest ι α) (i : ι) : Forest ι α where
  nodes := F.nodes.filter fun n => n.owner = i
  distinct := F.distinct.sublist (List.filter_sublist.map Node.id)

section Node

variable {F : Forest ι α} {x y i : ι}

theorem node?_eq_some_iff {n : Node ι α} : F.node? x = some n ↔ n ∈ F.nodes ∧ n.id = x := by
  have distinct := F.distinct
  rw [node?]
  generalize F.nodes = nodes at distinct ⊢
  induction nodes with
  | nil => simp
  | cons m nodes ih =>
      rw [List.map_cons, List.nodup_cons] at distinct
      by_cases here : m.id = x
      · subst here
        rw [List.find?_cons_of_pos (by simp), Option.some.injEq, List.mem_cons]
        constructor
        · rintro rfl
          exact ⟨Or.inl rfl, rfl⟩
        · rintro ⟨rfl | later, same⟩
          · rfl
          · exact absurd (List.mem_map.mpr ⟨n, later, same⟩) distinct.1
      · rw [List.find?_cons_of_neg (by simpa using here), List.mem_cons]
        refine (ih distinct.2).trans ?_
        constructor
        · rintro ⟨later, same⟩
          exact ⟨Or.inr later, same⟩
        · rintro ⟨rfl | later, same⟩
          · exact absurd same here
          · exact ⟨later, same⟩

theorem node?_eq_none_iff : F.node? x = none ↔ x ∉ F.ids := by
  rw [node?, List.find?_eq_none, ids, List.mem_map]
  simp

theorem mem_ids_iff : x ∈ F.ids ↔ ∃ n, F.node? x = some n := by
  rw [← Option.ne_none_iff_exists', ne_eq, node?_eq_none_iff, not_not]

theorem node?_id {n : Node ι α} (own : n ∈ F.nodes) : F.node? n.id = some n :=
  node?_eq_some_iff.mpr ⟨own, rfl⟩

theorem eq_of_id_eq {m n : Node ι α} (own : F.node? x = some m) (own' : F.node? y = some n)
    (same : m.id = n.id) : m = n := by
  rw [← (node?_eq_some_iff.mp own).2, same, (node?_eq_some_iff.mp own').2, own'] at own
  exact (Option.some.inj own).symm

theorem mem_children {n : Node ι α} : n ∈ F.children x ↔ n ∈ F.nodes ∧ n.parent = some x := by
  simp [children]

end Node

section Update

variable (F : Forest ι α) (f : Node ι α → α)

theorem node?_update (x : ι) :
    (F.update f).node? x = (F.node? x).map fun n => { n with value := f n } := by
  rw [node?, update, List.find?_map]
  rfl

omit [DecidableEq ι] in
theorem ids_update : (F.update f).ids = F.ids := by
  rw [ids, update, List.map_map]
  rfl

theorem children_update (x : ι) :
    (F.update f).children x = (F.children x).map fun n => { n with value := f n } := by
  rw [children, update, List.filter_map]
  rfl

omit [DecidableEq ι] in
theorem update_update (g : Node ι α → α) :
    (F.update f).update g = F.update fun n => g { n with value := f n } := by
  apply ext
  exact List.map_map

theorem values_update (x : ι) : (F.update f).values x = (F.children x).map f := by
  rw [values, children_update, List.map_map]
  rfl

theorem index_update (x y : ι) : (F.update f).index x y = F.index x y := by
  rw [index, children_update, List.findIdx_map]
  rfl

theorem part_update (i : ι) : (F.update f).part i = (F.part i).update f := by
  apply ext
  change List.filter _ (List.map _ _) = List.map _ (List.filter _ _)
  rw [List.filter_map]
  rfl

omit [DecidableEq ι] in
theorem update_congr {f g : Node ι α → α} (same : ∀ n ∈ F.nodes, f n = g n) :
    F.update f = F.update g := by
  apply ext
  exact List.map_congr_left fun n own => by rw [same n own]

omit [DecidableEq ι] in
theorem update_self {f : Node ι α → α} (same : ∀ n ∈ F.nodes, f n = n.value) : F.update f = F := by
  rw [F.update_congr (g := Node.value) same]
  apply ext
  exact List.map_id' F.nodes

end Update

section Modify

variable (F : Forest ι α) {x y : ι} (f : α → α)

theorem node?_modify_self (x : ι) :
    (F.modify x f).node? x = (F.node? x).map fun n => { n with value := f n.value } := by
  rw [modify, node?_update]
  cases found : F.node? x with
  | none => rfl
  | some n =>
      have own : n.id = x := (node?_eq_some_iff.mp found).2
      rw [Option.map_some, Option.map_some, if_pos own]

theorem node?_modify_of_ne (other : y ≠ x) : (F.modify x f).node? y = F.node? y := by
  rw [modify, node?_update]
  cases found : F.node? y with
  | none => rfl
  | some n =>
      have own : n.id = y := (node?_eq_some_iff.mp found).2
      rw [Option.map_some, if_neg (own ▸ other)]

theorem ids_modify (x : ι) : (F.modify x f).ids = F.ids := ids_update F _

theorem part_modify (i x : ι) : (F.modify x f).part i = (F.part i).modify x f := part_update F _ i

theorem modify_of_not_mem (absent : x ∉ F.ids) : F.modify x f = F := by
  apply update_self
  intro n own
  have other : n.id ≠ x := fun same => absent (same ▸ List.mem_map_of_mem own)
  rw [if_neg other]

theorem index_modify (x y z : ι) : (F.modify z f).index x y = F.index x y := index_update F _ x y

theorem values_modify (x y : ι) :
    (F.modify y f).values x = (F.values x).modify (F.index x y) f := by
  rw [modify, values_update, values, index]
  have distinct : ((F.children x).map Node.id).Nodup :=
    F.distinct.sublist (List.filter_sublist.map Node.id)
  generalize F.children x = nodes at distinct ⊢
  induction nodes with
  | nil => simp
  | cons n nodes ih =>
      rw [List.map_cons, List.nodup_cons] at distinct
      by_cases here : n.id = y
      · have others : nodes.map (fun m => if m.id = y then f m.value else m.value) =
            nodes.map Node.value := by
          apply List.map_congr_left
          intro m later
          have other : m.id ≠ y := fun same =>
            distinct.1 (List.mem_map.mpr ⟨m, later, same.trans here.symm⟩)
          rw [if_neg other]
        rw [List.map_cons, List.map_cons, List.findIdx_cons, if_pos here, others]
        simp [here]
      · rw [List.map_cons, List.map_cons, List.findIdx_cons, if_neg here, ih distinct.2]
        simp [here]

theorem values_modify_of_not_child (x : ι) (other : ∀ n ∈ F.children x, n.id ≠ y) :
    (F.modify y f).values x = F.values x := by
  rw [modify, values_update]
  apply List.map_congr_left
  intro n child
  rw [if_neg (other n child)]

end Modify

section Add

variable {F : Forest ι α} {n : Node ι α} (fresh : n.id ∉ F.ids)
include fresh

theorem nodes_add : (F.add n).nodes = F.nodes ++ [n] := by
  rw [add, dif_neg fresh]

theorem node?_add_self : (F.add n).node? n.id = some n := by
  rw [node?_eq_some_iff, nodes_add fresh]
  exact ⟨List.mem_append_right _ List.mem_cons_self, rfl⟩

theorem node?_add_of_ne {x : ι} (other : x ≠ n.id) : (F.add n).node? x = F.node? x := by
  rw [node?, nodes_add fresh, List.find?_append, List.find?_cons_of_neg (by simpa using other.symm),
    List.find?_nil, Option.or_none]
  rfl

theorem node?_add_of_some {m : Node ι α} {x : ι} (held : F.node? x = some m) :
    (F.add n).node? x = some m := by
  have other : x ≠ n.id := by
    rintro rfl
    exact fresh (mem_ids_iff.mpr ⟨m, held⟩)
  rw [node?_add_of_ne fresh other, held]

theorem children_add_self {x : ι} (parent : n.parent = some x) :
    (F.add n).children x = F.children x ++ [n] := by
  rw [children, nodes_add fresh, List.filter_append, List.filter_cons_of_pos (by simpa using parent)]
  rfl

theorem children_add_of_ne {x : ι} (parent : n.parent ≠ some x) :
    (F.add n).children x = F.children x := by
  rw [children, nodes_add fresh, List.filter_append, List.filter_cons_of_neg (by simpa using parent)]
  exact List.append_nil _

theorem part_add_self {i : ι} (owner : n.owner = i) : (F.add n).part i = (F.part i).add n := by
  have fresh' : n.id ∉ (F.part i).ids := fun own => fresh
    ((List.filter_sublist.map Node.id).subset own)
  apply ext
  rw [nodes_add fresh']
  change (F.add n).nodes.filter _ = F.nodes.filter _ ++ [n]
  rw [nodes_add fresh, List.filter_append, List.filter_cons_of_pos (by simpa using owner)]
  rfl

theorem part_add_of_ne {i : ι} (owner : n.owner ≠ i) : (F.add n).part i = F.part i := by
  apply ext
  change (F.add n).nodes.filter _ = F.nodes.filter _
  rw [nodes_add fresh, List.filter_append, List.filter_cons_of_neg (by simpa using owner)]
  exact List.append_nil _

end Add

section Part

variable (F : Forest ι α) {x i : ι}

theorem node?_part {n : Node ι α} :
    (F.part i).node? x = some n ↔ F.node? x = some n ∧ n.owner = i := by
  rw [node?_eq_some_iff, node?_eq_some_iff, part, List.mem_filter]
  simp only [decide_eq_true_eq]
  tauto

theorem mem_ids_part : x ∈ (F.part i).ids ↔ ∃ n, F.node? x = some n ∧ n.owner = i := by
  rw [mem_ids_iff]
  exact exists_congr fun n => F.node?_part

theorem children_part_self (i : ι) : (F.part i).children i = F.children i := by
  rw [children, part, List.filter_filter, children]
  apply List.filter_congr
  intro n _
  by_cases child : n.parent = some i
  · simp [child, Node.owner]
  · simp [child]

theorem children_part_of_leaf (leaf : F.children x = []) (i : ι) : (F.part i).children x = [] := by
  rw [children, List.filter_eq_nil_iff] at leaf ⊢
  exact fun n own => leaf n (List.mem_of_mem_filter own)

end Part

section FindChild

variable {F : Forest ι α} {x : ι}

theorem findChild_of_leaf (leaf : F.children x = []) (q : α → Bool) (depth : ℕ) :
    F.findChild q depth x = none := by
  cases depth <;> simp [findChild, leaf]

/-- Below children that have none there is nothing to find. -/
theorem findChild_of_leaves (leaves : ∀ n ∈ F.children x, F.children n.id = []) (q : α → Bool)
    (depth : ℕ) :
    F.findChild q depth x = ((F.children x).find? fun n => q n.value).map Node.id := by
  cases depth with
  | zero => rfl
  | succ depth =>
      have below : (F.children x).findSome? (fun n => F.findChild q depth n.id) = none :=
        List.findSome?_eq_none_iff.mpr fun n child => findChild_of_leaf (leaves n child) q depth
      rw [findChild, below, Option.or_none]

end FindChild

section Index

variable {F : Forest ι α} {x y : ι}

theorem getElem?_children {n : Node ι α} (own : F.node? y = some n) (child : n.parent = some x) :
    (F.children x)[F.index x y]? = some n := by
  obtain ⟨listed, same⟩ := node?_eq_some_iff.mp own
  have among : n ∈ F.children x := mem_children.mpr ⟨listed, child⟩
  have inside : F.index x y < (F.children x).length :=
    List.findIdx_lt_length_of_exists ⟨n, among, by simpa using same⟩
  have there : ((F.children x)[F.index x y]).id = y :=
    of_decide_eq_true (List.findIdx_getElem (w := inside))
  have held : F.node? y = some (F.children x)[F.index x y] :=
    node?_eq_some_iff.mpr ⟨(mem_children.mp (List.getElem_mem inside)).1, there⟩
  rw [List.getElem?_eq_getElem inside, ← held, own]

theorem getElem?_values {n : Node ι α} (own : F.node? y = some n) (child : n.parent = some x) :
    (F.values x)[F.index x y]? = some n.value := by
  rw [values, List.getElem?_map, getElem?_children own child]
  rfl

theorem index_inj {m n : Node ι α} {z : ι} (own : F.node? y = some m) (child : m.parent = some x)
    (own' : F.node? z = some n) (child' : n.parent = some x) (same : F.index x y = F.index x z) :
    y = z := by
  have here := getElem?_children own child
  rw [same, getElem?_children own' child'] at here
  rw [← (node?_eq_some_iff.mp own).2, ← (node?_eq_some_iff.mp own').2, Option.some.inj here]

theorem index_add {n : Node ι α} (fresh : n.id ∉ F.ids) {m : Node ι α}
    (own : F.node? y = some m) (child : m.parent = some x) :
    (F.add n).index x y = F.index x y := by
  by_cases parent : n.parent = some x
  · obtain ⟨listed, same⟩ := node?_eq_some_iff.mp own
    have among : m ∈ F.children x := mem_children.mpr ⟨listed, child⟩
    rw [index, children_add_self fresh parent, List.findIdx_append, index, if_pos]
    exact List.findIdx_lt_length_of_exists ⟨m, among, by simpa using same⟩
  · rw [index, children_add_of_ne fresh parent, index]

/-- The search among the children, by position. -/
theorem findIdx?_values (q : α → Bool) (x : ι) :
    (F.values x).findIdx? q =
      (((F.children x).find? fun n => q n.value).map Node.id).map (F.index x) := by
  have distinct : ((F.children x).map Node.id).Nodup :=
    F.distinct.sublist (List.filter_sublist.map Node.id)
  unfold index
  rw [values]
  generalize F.children x = nodes at distinct ⊢
  induction nodes with
  | nil => rfl
  | cons n nodes ih =>
      rw [List.map_cons, List.nodup_cons] at distinct
      by_cases here : q n.value
      · rw [List.map_cons, List.findIdx?_cons, if_pos here,
          List.find?_cons_of_pos (p := fun n : Node ι α => q n.value) here]
        simp [List.findIdx_cons]
      · rw [List.map_cons, List.findIdx?_cons, if_neg here,
          List.find?_cons_of_neg (p := fun n : Node ι α => q n.value) here, ih distinct.2]
        cases found : nodes.find? fun n => q n.value with
        | none => rfl
        | some m =>
            have other : n.id ≠ m.id := fun same =>
              distinct.1 (List.mem_map.mpr ⟨m, List.mem_of_find?_eq_some found, same.symm⟩)
            simp [List.findIdx_cons, other]

end Index

end Forest

end QvPlugin.Lib
