import QvPlugin.Lib.Lens

/-!
Changing several members of a record, one after another. Where no two of them share storage,
each is changed once from what it held, whatever the order.
-/

set_option autoImplicit false
set_option relaxedAutoImplicit false

namespace QvPlugin.Lib

universe u v w x

variable {S : Type u} {ι : Type v} {A : ι → Type w} {α : Type x}

/-- Change the members of the list, each by its own function. -/
def modifyAll (lens : ∀ i, Lens S (A i)) (change : ∀ i, A i → A i) (members : List ι) (s : S) : S :=
  members.foldl (fun s i => (lens i).set (change i ((lens i).get s)) s) s

variable {lens : ∀ i, Lens S (A i)} {change change' : ∀ i, A i → A i}

@[simp] theorem modifyAll_nil (s : S) : modifyAll lens change [] s = s := rfl

theorem modifyAll_cons (i : ι) (members : List ι) (s : S) :
    modifyAll lens change (i :: members) s =
      modifyAll lens change members ((lens i).set (change i ((lens i).get s)) s) := rfl

theorem modifyAll_append (members members' : List ι) (s : S) :
    modifyAll lens change (members ++ members') s =
      modifyAll lens change members' (modifyAll lens change members s) := List.foldl_append

theorem modifyAll_map {κ : Type*} (f : κ → ι) (members : List κ) (s : S) :
    modifyAll lens change (members.map f) s =
      modifyAll (fun k => lens (f k)) (fun k => change (f k)) members s := List.foldl_map

theorem modifyAll_comp {T : Type*} (l : Lens T S) (members : List ι) (t : T) :
    modifyAll (fun i => l.comp (lens i)) change members t =
      l.set (modifyAll lens change members (l.get t)) t := by
  induction members generalizing t with
  | nil =>
      rw [modifyAll_nil, modifyAll_nil, l.set_get]
  | cons i members ih =>
      rw [modifyAll_cons, modifyAll_cons, ih]
      show l.set (modifyAll lens change members (l.get (l.set _ t))) (l.set _ t) = l.set _ t
      rw [l.get_set, l.set_set]
      rfl

theorem get_modifyAll_of_apart {l : Lens S α} {members : List ι}
    (apart : ∀ i ∈ members, l.Apart (lens i)) (s : S) :
    l.get (modifyAll lens change members s) = l.get s := by
  induction members generalizing s with
  | nil => rfl
  | cons i members ih =>
      rw [List.forall_mem_cons] at apart
      rw [modifyAll_cons, ih apart.2, apart.1.symm.get_set]

theorem modifyAll_set_of_apart {l : Lens S α} {members : List ι}
    (apart : ∀ i ∈ members, l.Apart (lens i)) (a : α) (s : S) :
    modifyAll lens change members (l.set a s) = l.set a (modifyAll lens change members s) := by
  induction members generalizing s with
  | nil => rfl
  | cons i members ih =>
      rw [List.forall_mem_cons] at apart
      have untouched : (lens i).get (l.set a s) = (lens i).get s := apart.1.get_set a s
      rw [modifyAll_cons, modifyAll_cons, untouched, ← apart.1, ih apart.2]

/-- Each listed member is changed once, from what it held at the start. -/
theorem get_modifyAll {members : List ι}
    (separate : members.Pairwise fun i j => (lens i).Apart (lens j)) {i : ι} (member : i ∈ members)
    (s : S) : (lens i).get (modifyAll lens change members s) = change i ((lens i).get s) := by
  induction members generalizing s with
  | nil => exact absurd member List.not_mem_nil
  | cons k members ih =>
      rw [List.pairwise_cons] at separate
      rw [modifyAll_cons]
      rcases List.mem_cons.mp member with rfl | later
      · rw [get_modifyAll_of_apart separate.1, (lens i).get_set]
      · rw [ih separate.2 later, (separate.1 i later).get_set]

theorem modifyAll_modifyAll {members : List ι}
    (separate : members.Pairwise fun i j => (lens i).Apart (lens j)) (s : S) :
    modifyAll lens change' members (modifyAll lens change members s) =
      modifyAll lens (fun i a => change' i (change i a)) members s := by
  induction members generalizing s with
  | nil => rfl
  | cons i members ih =>
      rw [List.pairwise_cons] at separate
      have held : (lens i).get (modifyAll lens change members
          ((lens i).set (change i ((lens i).get s)) s)) = change i ((lens i).get s) := by
        rw [get_modifyAll_of_apart separate.1, (lens i).get_set]
      rw [modifyAll_cons, modifyAll_cons, modifyAll_cons, held,
        ← modifyAll_set_of_apart separate.1, (lens i).set_set, ih separate.2]

theorem modifyAll_congr {members : List ι}
    (separate : members.Pairwise fun i j => (lens i).Apart (lens j)) {s : S}
    (same : ∀ i ∈ members, change i ((lens i).get s) = change' i ((lens i).get s)) :
    modifyAll lens change members s = modifyAll lens change' members s := by
  induction members generalizing s with
  | nil => rfl
  | cons i members ih =>
      rw [List.pairwise_cons] at separate
      rw [List.forall_mem_cons] at same
      rw [modifyAll_cons, modifyAll_cons, same.1]
      apply ih separate.2
      intro j later
      rw [(separate.1 j later).get_set, same.2 j later]

theorem modifyAll_eq_set {members : List ι}
    (separate : members.Pairwise fun i j => (lens i).Apart (lens j)) (nodup : members.Nodup)
    {i : ι} (member : i ∈ members) (same : ∀ j ∈ members, j ≠ i → change' j = change j) (s : S) :
    modifyAll lens change' members s =
      (lens i).set (change' i ((lens i).get s)) (modifyAll lens change members s) := by
  induction members generalizing s with
  | nil => exact absurd member List.not_mem_nil
  | cons k members ih =>
      rw [List.pairwise_cons] at separate
      rw [List.nodup_cons] at nodup
      rw [List.forall_mem_cons] at same
      rw [modifyAll_cons, modifyAll_cons]
      rcases List.mem_cons.mp member with rfl | later
      · have others : ∀ j ∈ members, change' j = change j := fun j later =>
          same.2 j later fun here => nodup.1 (here ▸ later)
        rw [← modifyAll_set_of_apart separate.1, (lens i).set_set]
        apply modifyAll_congr separate.2
        intro j later
        rw [others j later]
      · have other : k ≠ i := fun here => nodup.1 (here ▸ later)
        rw [same.1 other, ih separate.2 nodup.2 later same.2, (separate.1 i later).get_set]

/-- Two rounds from one record end alike exactly when they change each member alike. -/
theorem modifyAll_eq_iff {members : List ι}
    (separate : members.Pairwise fun i j => (lens i).Apart (lens j)) {s : S} :
    modifyAll lens change members s = modifyAll lens change' members s ↔
      ∀ i ∈ members, change i ((lens i).get s) = change' i ((lens i).get s) := by
  constructor
  · intro same i member
    have left : (lens i).get (modifyAll lens change members s) = change i ((lens i).get s) :=
      get_modifyAll separate member s
    rw [← left, same, get_modifyAll separate member]
  · exact modifyAll_congr separate

end QvPlugin.Lib
