import QvPlugin.Qt.PathWrite

/-!
Two writes into one document. Where the paths part at steps into one kind of container the writes
do not meet; otherwise the order counts, unless one value has the other at its place already.
-/

set_option autoImplicit false
set_option relaxedAutoImplicit false

namespace QvPlugin.Qt

open Lib

def Key.SameKind : Key → Key → Prop
  | .index _, .index _ => True
  | .name _, .name _ => True
  | _, _ => False

/-- The paths part, at steps into one kind of container. -/
inductive Apart : List Key → List Key → Prop
  | here {k k' : Key} (differ : k ≠ k') (kind : k.SameKind k') (tail tail' : List Key) :
      Apart (k :: tail) (k' :: tail')
  | step (k : Key) {p q : List Key} (rest : Apart p q) : Apart (k :: p) (k :: q)

/-- The paths part, at a step into an array and a step into an object. -/
inductive Clash : List Key → List Key → Prop
  | here {k k' : Key} (kind : ¬ k.SameKind k') (tail tail' : List Key) :
      Clash (k :: tail) (k' :: tail')
  | step (k : Key) {p q : List Key} (rest : Clash p q) : Clash (k :: p) (k :: q)

/-- The second path goes on below the first, and the first value has the second one there. -/
def Holds (p : List Key) (w : Json) (q : List Key) (w' : Json) : Prop :=
  ∃ rest, q = p ++ rest ∧ follow (some w) rest = some w'

/-- Neither of two writes undoes anything of the other one. -/
def Commuting (a b : List Key × Json) : Prop :=
  Apart a.1 b.1 ∨ Holds a.1 a.2 b.1 b.2 ∨ Holds b.1 b.2 a.1 a.2

theorem Key.SameKind.symm {k k' : Key} (kind : k.SameKind k') : k'.SameKind k := by
  cases k <;> cases k' <;> exact kind

theorem apart_or_clash (p q : List Key) :
    Apart p q ∨ Clash p q ∨ (∃ rest, q = p ++ rest) ∨ ∃ rest, p = q ++ rest := by
  induction p generalizing q with
  | nil => exact Or.inr (Or.inr (Or.inl ⟨q, rfl⟩))
  | cons k p ih =>
      cases q with
      | nil => exact Or.inr (Or.inr (Or.inr ⟨k :: p, rfl⟩))
      | cons k' q =>
          by_cases same : k = k'
          · subst same
            rcases ih q with apart | clash | ⟨rest, rfl⟩ | ⟨rest, rfl⟩
            · exact Or.inl (Apart.step k apart)
            · exact Or.inr (Or.inl (Clash.step k clash))
            · exact Or.inr (Or.inr (Or.inl ⟨rest, rfl⟩))
            · exact Or.inr (Or.inr (Or.inr ⟨rest, rfl⟩))
          · by_cases kind : k.SameKind k'
            · exact Or.inl (Apart.here same kind p q)
            · exact Or.inr (Or.inl (Clash.here kind p q))

section Write

variable {v : QJsonValue} {k k' : Key}

theorem sameInside_valueAt_write (differ : k ≠ k') (kind : k.SameKind k') (x : QJsonValue) :
    SameInside (valueAt (write v k x) k') (valueAt v k') := by
  cases k with
  | index i =>
      cases k' with
      | name s => exact kind.elim
      | index j =>
          have other : i ≠ j := fun same => differ (congrArg Key.index same)
          have slot : valueAt (write v (.index i) x) (.index j) =
              ((padded (toArray v) i)[j]?).join := by
            rw [write, valueAt_array_index, List.getElem?_set_ne other]
          have before : valueAt v (.index j) = ((toArray v)[j]?).join := rfl
          rw [slot, before]
          by_cases old : j < (toArray v).length
          · rw [getElem?_padded_old old]
            exact ⟨rfl, rfl⟩
          · have past : (toArray v).length ≤ j := by omega
            rw [List.getElem?_eq_none past]
            by_cases below : j ≤ i
            · rw [getElem?_padded_new past below]
              exact ⟨rfl, rfl⟩
            · have outside : (padded (toArray v) i).length ≤ j := by
                rw [length_padded]
                omega
              rw [List.getElem?_eq_none outside]
              exact ⟨rfl, rfl⟩
  | name s =>
      cases k' with
      | index j => exact kind.elim
      | name s' =>
          have other : s' ≠ s := fun same => differ (congrArg Key.name same.symm)
          have slot : valueAt (write v (.name s) x) (.name s') = valueAt v (.name s') := by
            rw [write, valueAt_object_name, QJsonObject.lookup_insert, if_neg other]
            rfl
          rw [slot]
          exact ⟨rfl, rfl⟩

theorem getElem?_set_padded (a : QJsonArray) (i n : ℕ) (x : QJsonValue) :
    ((padded a i).set i x)[n]? =
      if n = i then some x else if n < a.length then a[n]? else if n < i then some (some .null)
        else none := by
  by_cases here : n = i
  · subst here
    have inside : n < (padded a n).length := by
      rw [length_padded]
      omega
    rw [List.getElem?_set_self inside, if_pos rfl]
  · rw [List.getElem?_set_ne (Ne.symm here), if_neg here]
    by_cases old : n < a.length
    · rw [getElem?_padded_old old, if_pos old]
    · have past : a.length ≤ n := by omega
      rw [if_neg old]
      by_cases below : n < i
      · rw [getElem?_padded_new past (by omega), if_pos below]
      · have outside : (padded a i).length ≤ n := by
          rw [length_padded]
          omega
        rw [List.getElem?_eq_none outside, if_neg below]

theorem write_comm (differ : k ≠ k') (kind : k.SameKind k') (x y : QJsonValue) :
    write (write v k x) k' y = write (write v k' y) k x := by
  cases k with
  | index i =>
      cases k' with
      | name s => exact kind.elim
      | index j =>
          have other : i ≠ j := fun same => differ (congrArg Key.index same)
          have length : ∀ (a : QJsonArray) (n : ℕ) (z : QJsonValue),
              ((padded a n).set n z).length = max a.length (n + 1) := by
            intro a n z
            rw [List.length_set, length_padded]
          have slots : (padded ((padded (toArray v) i).set i x) j).set j y =
              (padded ((padded (toArray v) j).set j y) i).set i x := by
            apply List.ext_getElem?
            intro n
            rw [getElem?_set_padded, getElem?_set_padded, length, getElem?_set_padded, length,
              getElem?_set_padded]
            split_ifs <;> first | rfl | omega
          exact congrArg (fun a => some (Json.array a)) slots
  | name s =>
      cases k' with
      | index j => exact kind.elim
      | name s' =>
          have other : s ≠ s' := fun same => differ (congrArg Key.name same)
          have keys : QJsonObject.insert (QJsonObject.insert (toObject v) s x) s' y =
              QJsonObject.insert (QJsonObject.insert (toObject v) s' y) s x := by
            ext1 n
            rw [QJsonObject.lookup_insert, QJsonObject.lookup_insert, QJsonObject.lookup_insert,
              QJsonObject.lookup_insert]
            split_ifs with second first
            · exact absurd (first.symm.trans second) other
            · rfl
            · rfl
            · rfl
          exact congrArg (fun o => some (Json.object o)) keys

end Write

section Put

theorem put_cons_put_cons {v : QJsonValue} {k : Key} {path : List Key} {x : QJsonValue} {j : Json}
    (written : put (valueAt v k) path x = some j) (path' : List Key) (y : QJsonValue) :
    put (put v (k :: path) x) (k :: path') y =
      write v k (put (put (valueAt v k) path x) path' y) := by
  have child : valueAt (put v (k :: path) x) k = put (valueAt v k) path x := by
    rw [put, written, valueAt_write]
  rw [put_cons _ k path', child, put_cons, write_write]

theorem Apart.symm {p q : List Key} (apart : Apart p q) : Apart q p := by
  induction apart with
  | here differ kind tail tail' => exact Apart.here (Ne.symm differ) kind.symm tail' tail
  | step k rest ih => exact Apart.step k ih

theorem Apart.exists_put {p q : List Key} (apart : Apart p q) (v x : QJsonValue) :
    ∃ j, put v p x = some j := by
  cases apart with
  | here differ kind tail tail' => exact exists_put_cons_eq_some v _ tail x
  | step k rest => exact exists_put_cons_eq_some v k _ x

/-- Writes at paths that part in one container commute, also those that remove something. -/
theorem put_comm {p q : List Key} (apart : Apart p q) (v w w' : QJsonValue) :
    put (put v p w) q w' = put (put v q w') p w := by
  induction apart generalizing v with
  | @here k k' differ kind tail tail' =>
      -- what the other write leaves in the container does not reach below this step
      have beside : ∀ {c c' : Key}, c ≠ c' → c.SameKind c' → ∀ (x : QJsonValue) path y,
          put (valueAt (write v c x) c') path y = put (valueAt v c') path y := by
        intro c c' differ kind x path y
        cases path with
        | nil => rfl
        | cons d path => exact put_congr (sameInside_valueAt_write differ kind x) d path y
      simp only [put_cons, beside differ kind, beside (Ne.symm differ) kind.symm]
      exact write_comm differ kind _ _
  | @step k p q rest ih =>
      obtain ⟨j, first⟩ := rest.exists_put (valueAt v k) w
      obtain ⟨j', second⟩ := rest.symm.exists_put (valueAt v k) w'
      rw [put_cons_put_cons first, put_cons_put_cons second, ih]

theorem put_ne_of_clash {p q : List Key} (clash : Clash p q) (v : QJsonValue) (w w' : Json) :
    put (put v p (some w)) q (some w') ≠ put (put v q (some w')) p (some w) := by
  induction clash generalizing v with
  | @here k k' kind tail tail' =>
      intro same
      cases k <;> cases k'
      · exact kind trivial
      · exact absurd (congrArg isArray same) Bool.false_ne_true
      · exact absurd (congrArg isObject same) Bool.false_ne_true
      · exact kind trivial
  | @step k p q rest ih =>
      intro same
      obtain ⟨j, first⟩ := exists_put_eq_some (valueAt v k) p w
      obtain ⟨j', second⟩ := exists_put_eq_some (valueAt v k) q w'
      rw [put_cons_put_cons first, put_cons_put_cons second] at same
      obtain ⟨i, left⟩ := exists_put_eq_some (put (valueAt v k) p (some w)) q w'
      obtain ⟨i', right⟩ := exists_put_eq_some (put (valueAt v k) q (some w')) p w
      have children := congrArg (fun u => valueAt u k) same
      simp only [left, right, valueAt_write] at children
      exact ih (valueAt v k) (by rw [left, right, children])

/-- A write below an earlier one is undone by repeating that one, unless it changed nothing. -/
theorem put_below_comm_iff (v : QJsonValue) (p rest : List Key) (w w' : Json) :
    put (put v p (some w)) (p ++ rest) (some w') = put (put v (p ++ rest) (some w')) p (some w) ↔
      follow (some w) rest = some w' := by
  obtain ⟨j, inner⟩ := exists_put_eq_some (follow v p) rest w'
  have later : put (put v (p ++ rest) (some w')) p (some w) = put v p (some w) := by
    rw [put_append, inner, put_put]
  rw [later]
  constructor
  · intro same
    have reached := congrArg (fun u => follow u (p ++ rest)) same
    simp only [follow_put] at reached
    rw [follow_append, follow_put] at reached
    exact reached.symm
  · intro held
    rw [put_append, follow_put, put_follow held, put_put]

/-- When the order of two writes does not count, whatever the document. -/
theorem put_comm_iff (v : QJsonValue) (p q : List Key) (w w' : Json) :
    put (put v p (some w)) q (some w') = put (put v q (some w')) p (some w) ↔
      Commuting (p, w) (q, w') := by
  constructor
  · intro same
    rcases apart_or_clash p q with apart | clash | ⟨rest, rfl⟩ | ⟨rest, rfl⟩
    · exact Or.inl apart
    · exact absurd same (put_ne_of_clash clash v w w')
    · exact Or.inr (Or.inl ⟨rest, rfl, (put_below_comm_iff v p rest w w').mp same⟩)
    · exact Or.inr (Or.inr ⟨rest, rfl, (put_below_comm_iff v q rest w' w).mp same.symm⟩)
  · rintro (apart | ⟨rest, below, held⟩ | ⟨rest, below, held⟩)
    · exact put_comm apart v (some w) (some w')
    · have extends_ : q = p ++ rest := below
      rw [extends_]
      exact (put_below_comm_iff v p rest w w').mpr held
    · have extends_ : p = q ++ rest := below
      rw [extends_]
      exact ((put_below_comm_iff v q rest w' w).mpr held).symm

end Put

end QvPlugin.Qt
