import Mathlib.Data.Finset.Card
import Mathlib.Data.Fintype.Card
import Mathlib.Logic.Function.Basic
import Mathlib.Logic.Relation

/-!
Cells that pass values on. A cell keeps what it accepts of a value that it is given. When that
changes it, it gives its new value to the cells that it is linked to, one after another, and each of
these passes it on before the next one has its turn.
-/

set_option autoImplicit false
set_option relaxedAutoImplicit false

namespace QvPlugin.Lib

universe u v

structure Cells (ι : Type u) (T : Type v) where
  value : ι → T
  links : ι → List ι

namespace Cells

variable {ι : Type u} {T : Type v}

section Definitions

/-- `x` gives its value of the moment to each of `ys`. -/
def passOn (give : Cells ι T → ι → T → Option (Cells ι T)) (x : ι) (s : Cells ι T) (ys : List ι) :
    Option (Cells ι T) :=
  ys.foldlM (fun s y => give s y (s.value x)) s

theorem passOn_cons (give : Cells ι T → ι → T → Option (Cells ι T)) (x : ι) (s : Cells ι T)
    (y : ι) (ys : List ι) :
    passOn give x s (y :: ys) = (give s y (s.value x)).bind fun s => passOn give x s ys := rfl

variable [DecidableEq ι]

def store (s : Cells ι T) (x : ι) (v : T) : Cells ι T :=
  { s with value := Function.update s.value x v }

def connect (s : Cells ι T) (x y : ι) : Cells ι T :=
  { s with links := Function.update s.links x (s.links x ++ [y]) }

/-- `x` is given `v`; `fuel` bounds the depth of the nested calls. -/
def give [DecidableEq T] (accept : ι → T → T) : ℕ → Cells ι T → ι → T → Option (Cells ι T)
  | 0 => fun _ _ _ => none
  | fuel + 1 => fun s x v =>
      if s.value x = accept x v then some s
      else passOn (give accept fuel) x (s.store x (accept x v)) (s.links x)

theorem give_of_eq [DecidableEq T] {accept : ι → T → T} {fuel : ℕ} {s : Cells ι T} {x : ι} {v : T}
    (held : s.value x = accept x v) : give accept (fuel + 1) s x v = some s := if_pos held

theorem give_of_ne [DecidableEq T] {accept : ι → T → T} {fuel : ℕ} {s : Cells ι T} {x : ι} {v : T}
    (differ : s.value x ≠ accept x v) : give accept (fuel + 1) s x v =
      passOn (give accept fuel) x (s.store x (accept x v)) (s.links x) := if_neg differ

theorem give_accept [DecidableEq T] {accept : ι → T → T} {x : ι} {v : T}
    (idempotent : accept x (accept x v) = accept x v) (fuel : ℕ) (s : Cells ι T) :
    give accept fuel s x (accept x v) = give accept fuel s x v := by
  cases fuel with
  | zero => rfl
  | succ fuel => simp only [give, idempotent]

@[simp] theorem value_store_self (s : Cells ι T) (x : ι) (v : T) : (s.store x v).value x = v := by
  simp [store]

theorem value_store_of_ne (s : Cells ι T) {x y : ι} (other : y ≠ x) (v : T) :
    (s.store x v).value y = s.value y := by
  simp [store, other]

theorem mem_links_connect (s : Cells ι T) (x y a b : ι) :
    b ∈ (s.connect x y).links a ↔ b ∈ s.links a ∨ (a = x ∧ b = y) := by
  by_cases here : a = x
  · subst here
    simp [connect]
  · simp [connect, here]

end Definitions

def Symmetric (s : Cells ι T) : Prop := ∀ x y, y ∈ s.links x → x ∈ s.links y

def Closed (region : Set ι) (s : Cells ι T) : Prop :=
  ∀ x ∈ region, ∀ y ∈ s.links x, y ∈ region

def Tied (s : Cells ι T) : ι → ι → Prop :=
  Relation.ReflTransGen fun x y => y ∈ s.links x ∧ s.value y = s.value x

theorem Tied.value {s : Cells ι T} {x y : ι} (tied : Tied s x y) : s.value y = s.value x := by
  induction tied with
  | refl => rfl
  | tail _ link ih => exact link.2.trans ih

theorem Tied.inside {s : Cells ι T} {region : Set ι} (closed : Closed region s) {x y : ι}
    (inside : x ∈ region) (tied : Tied s x y) : y ∈ region := by
  induction tied with
  | refl => exact inside
  | tail _ link ih => exact closed _ ih _ link.1

section Accept

variable (accept : ι → T → T)

def Normal (s : Cells ι T) : Prop := ∀ x, accept x (s.value x) = s.value x

/-- One of the two holds what it accepts of the value of the other. -/
def Consistent (s : Cells ι T) (x y : ι) : Prop :=
  s.value y = accept y (s.value x) ∨ s.value x = accept x (s.value y)

variable (region : Set ι)

/-- What a cell accepts it accepts as it is, and in the region no cell makes, of a value that
another one accepts as it is, a value that this one does not. -/
structure Compatible : Prop where
  idempotent : ∀ x v, accept x (accept x v) = accept x v
  fixed : ∀ x ∈ region, ∀ y ∈ region, ∀ v, accept x v = v → accept x (accept y v) = accept y v

/-- The values that `v` can become on its way through the region. -/
def Reach : T → T → Prop := Relation.ReflTransGen fun v u => ∃ x ∈ region, u = accept x v

variable {accept region}

theorem Reach.step {x : ι} (inside : x ∈ region) (v : T) : Reach accept region v (accept x v) :=
  Relation.ReflTransGen.single ⟨x, inside, rfl⟩

theorem Reach.fixed (compatible : Compatible accept region) {x : ι} (inside : x ∈ region) {v u : T}
    (reach : Reach accept region v u) (held : accept x v = v) : accept x u = u := by
  induction reach with
  | refl => exact held
  | tail _ step ih =>
      obtain ⟨y, insideY, rfl⟩ := step
      exact compatible.fixed x inside y insideY _ ih

theorem Reach.eq_of_fixed {v u : T} (reach : Reach accept region v u)
    (held : ∀ x ∈ region, accept x v = v) : u = v := by
  induction reach with
  | refl => rfl
  | tail _ step ih =>
      obtain ⟨y, inside, rfl⟩ := step
      rw [ih, held y inside]

theorem Reach.eq_accept {x : ι} {v u : T} (reach : Reach accept {x} v u)
    (idempotent : accept x (accept x v) = accept x v) (held : accept x u = u) :
    u = accept x v := by
  have either : u = v ∨ u = accept x v := by
    clear held
    induction reach with
    | refl => exact Or.inl rfl
    | tail _ step ih =>
        obtain ⟨y, inside, rfl⟩ := step
        rw [Set.mem_singleton_iff.mp inside]
        rcases ih with rfl | rfl
        · exact Or.inr rfl
        · exact Or.inr idempotent
  rcases either with rfl | same
  · exact held.symm
  · exact same

/-- `x` has been given `w`, which it accepts, and has passed it on: `x` and the cells that changed
hold one value in the end, and the cells linked to `x` hold what they accept of it. -/
structure Given (accept : ι → T → T) (region : Set ι) (s : Cells ι T) (x : ι) (w : T)
    (s' : Cells ι T) : Prop where
  links : s'.links = s.links
  normal : Normal accept s'
  consistent : ∀ a b, b ∈ s.links a → Consistent accept s a b → Consistent accept s' a b
  reach : Reach accept region w (s'.value x)
  tied : ∀ a, s'.value a = s.value a ∨ Tied s' x a
  shown : ∀ y ∈ s.links x, s'.value y = accept y (s'.value x)

/-- `x` has stored `w` in the state `s₁` and has passed its value on to `done`. -/
structure Passing (accept : ι → T → T) (region : Set ι) (s₁ : Cells ι T) (x : ι) (w : T)
    (done : List ι) (s : Cells ι T) : Prop where
  links : s.links = s₁.links
  normal : Normal accept s
  consistent : ∀ a b, b ∈ s₁.links a → Consistent accept s₁ a b → Consistent accept s a b
  reach : Reach accept region w (s.value x)
  tied : ∀ a, s.value a = s₁.value a ∨ Tied s x a
  inside : ∀ y ∈ done, y ∈ s₁.links x
  shown : ∀ y ∈ done, s.value y = accept y (s.value x)

section Step

variable {s s₁ s' : Cells ι T} {x y : ι} {w : T} {done : List ι}

theorem Given.value_giver (compatible : Compatible accept region) (closed : Closed region s)
    (inside : x ∈ region) (normal : Normal accept s) (symmetric : Symmetric s)
    (link : y ∈ s.links x) (given : Given accept region s y (accept y (s.value x)) s') :
    s'.value x = s'.value y := by
  have insideY := closed x inside y link
  have keeps : accept x (accept y (s.value x)) = accept y (s.value x) :=
    compatible.fixed x inside y insideY _ (normal x)
  have back := given.shown x (symmetric x y link)
  rw [back, given.reach.fixed compatible inside keeps]

theorem Given.still_tied (compatible : Compatible accept region) (closed : Closed region s)
    (inside : x ∈ region) (normal : Normal accept s) (symmetric : Symmetric s)
    (link : y ∈ s.links x) (given : Given accept region s y (accept y (s.value x)) s') {a : ι}
    (tied : Tied s x a) : Tied s' x a := by
  have insideY := closed x inside y link
  have giver := given.value_giver compatible closed inside normal symmetric link
  induction tied with
  | refl => exact Relation.ReflTransGen.refl
  | @tail a b before edge ih =>
      obtain ⟨linked, equal⟩ := edge
      have insideB : b ∈ region := closed a (Tied.inside closed inside before) b linked
      have valueA : s.value a = s.value x := Tied.value before
      have valueB : s.value b = s.value x := equal.trans valueA
      have nowA : s'.value a = s'.value y := (Tied.value ih).trans giver
      refine ih.tail ⟨given.links ▸ linked, ?_⟩
      rcases given.tied b with kept | moved
      · -- `b` was not changed: then the value that `a` and `x` have now is the one they had
        have before : Consistent accept s a b := by
          refine Or.inl ?_
          rw [← equal, normal b]
        have fixedA : accept a (s.value x) = s.value x := valueA ▸ normal a
        have fixedB : accept b (s.value x) = s.value x := valueB ▸ normal b
        rcases given.consistent a b linked before with same | same
        · have keeps := given.reach.fixed compatible insideB
            (compatible.fixed b insideB y insideY _ fixedB)
          rw [same, nowA, keeps]
        · rw [kept, valueB, fixedA] at same
          rw [kept, valueB, same]
      · rw [Tied.value moved, nowA]

theorem Passing.symmetric (symmetric : Symmetric s₁)
    (passing : Passing accept region s₁ x w done s) : Symmetric s := by
  intro a b linked
  rw [passing.links] at linked ⊢
  exact symmetric a b linked

theorem Passing.closed (closed : Closed region s₁)
    (passing : Passing accept region s₁ x w done s) : Closed region s := by
  intro a inside b linked
  rw [passing.links] at linked
  exact closed a inside b linked

theorem Passing.given (compatible : Compatible accept region) (closed : Closed region s₁)
    (inside : x ∈ region) (symmetric : Symmetric s₁)
    (passing : Passing accept region s₁ x w done s) (link : y ∈ s₁.links x)
    (given : Given accept region s y (accept y (s.value x)) s') :
    Passing accept region s₁ x w (done ++ [y]) s' := by
  have symmetricS := passing.symmetric symmetric
  have closedS := passing.closed closed
  have linkS : y ∈ s.links x := passing.links ▸ link
  have giver := given.value_giver compatible closedS inside passing.normal symmetricS linkS
  have edge : Tied s' x y :=
    Relation.ReflTransGen.single ⟨by rw [given.links]; exact linkS, giver.symm⟩
  constructor
  · rw [given.links, passing.links]
  · exact given.normal
  · intro a b linked before
    exact given.consistent a b (passing.links ▸ linked) (passing.consistent a b linked before)
  · have step : Reach accept region (s.value x) (accept y (s.value x)) :=
      Reach.step (closed x inside y link) (s.value x)
    rw [giver]
    exact (passing.reach.trans step).trans given.reach
  · intro a
    rcases given.tied a with kept | moved
    · rcases passing.tied a with same | tied
      · exact Or.inl (kept.trans same)
      · exact Or.inr (given.still_tied compatible closedS inside passing.normal symmetricS linkS
          tied)
    · exact Or.inr (edge.trans moved)
  · intro z member
    rcases List.mem_append.mp member with old | new
    · exact passing.inside z old
    · rw [List.mem_singleton.mp new]
      exact link
  · intro z member
    rcases List.mem_append.mp member with old | new
    · have linkZ := passing.inside z old
      have before := passing.shown z old
      rcases given.tied z with kept | moved
      · -- `z` was not changed, so it is the value of `x` that may have been
        rcases given.consistent x z (passing.links ▸ linkZ) (Or.inl before) with now | now
        · exact now
        · have fixedX := compatible.fixed x inside z (closed x inside z linkZ) _ (passing.normal x)
          have equal : s'.value x = s'.value z := by
            rw [now, kept, before, fixedX]
          rw [equal, given.normal z]
      · have equal : s'.value z = s'.value x := (Tied.value moved).trans giver.symm
        rw [← equal, given.normal z]
    · rw [List.mem_singleton.mp new, giver, given.normal y]

theorem Passing.held (passing : Passing accept region s₁ x w done s) (link : y ∈ s₁.links x)
    (held : s.value y = accept y (s.value x)) :
    Passing accept region s₁ x w (done ++ [y]) s := by
  refine { passing with inside := ?_, shown := ?_ }
  · intro z member
    rcases List.mem_append.mp member with old | new
    · exact passing.inside z old
    · rw [List.mem_singleton.mp new]
      exact link
  · intro z member
    rcases List.mem_append.mp member with old | new
    · exact passing.shown z old
    · rw [List.mem_singleton.mp new]
      exact held

end Step

section Store

variable [DecidableEq ι] {s s' : Cells ι T} {x : ι} {w : T}

theorem Passing.start (normal : Normal accept s) (held : accept x w = w) :
    Passing accept region (s.store x w) x w [] (s.store x w) where
  links := rfl
  normal a := by
    by_cases here : a = x
    · rw [here, value_store_self, held]
    · rw [value_store_of_ne s here, normal a]
  consistent _ _ _ before := before
  reach := by
    rw [value_store_self]
    exact Relation.ReflTransGen.refl
  tied _ := Or.inl rfl
  inside _ member := absurd member List.not_mem_nil
  shown _ member := absurd member List.not_mem_nil

theorem Passing.finish (symmetric : Symmetric s)
    (passing : Passing accept region (s.store x w) x w (s.links x) s') :
    Given accept region s x w s' where
  links := passing.links
  normal := passing.normal
  consistent a b linked before := by
    by_cases hereA : a = x
    · subst hereA
      exact Or.inl (passing.shown b linked)
    · by_cases hereB : b = x
      · subst hereB
        exact Or.inr (passing.shown a (symmetric a b linked))
      · refine passing.consistent a b linked ?_
        rw [Consistent, value_store_of_ne s hereA, value_store_of_ne s hereB]
        exact before
  reach := passing.reach
  tied a := by
    by_cases here : a = x
    · subst here
      exact Or.inr Relation.ReflTransGen.refl
    · rcases passing.tied a with kept | tied
      · exact Or.inl (kept.trans (value_store_of_ne s here w))
      · exact Or.inr tied
  shown := passing.shown

end Store

section Termination

variable [Fintype ι] [DecidableEq T]

open Classical in
noncomputable def unfixed (accept : ι → T → T) (region : Set ι) (v : T) : ℕ :=
  (Finset.univ.filter fun x => x ∈ region ∧ accept x v ≠ v).card

def pending (v : T) (s : Cells ι T) : ℕ := (Finset.univ.filter fun x => s.value x ≠ v).card

/-- The bound on the depth: a value is changed once by each cell at most, and in between is passed
on to each cell at most once. -/
noncomputable def cost (accept : ι → T → T) (region : Set ι) (s : Cells ι T) (v : T) : ℕ :=
  unfixed accept region v * (Fintype.card ι + 1) + pending v s

theorem Reach.unfixed_lt (compatible : Compatible accept region) {v u : T}
    (reach : Reach accept region v u) :
    u = v ∨ unfixed accept region u < unfixed accept region v := by
  induction reach with
  | refl => exact Or.inl rfl
  | @tail u t before step ih =>
      obtain ⟨y, inside, rfl⟩ := step
      by_cases same : accept y u = u
      · rw [same]
        exact ih
      · have less : unfixed accept region (accept y u) < unfixed accept region u := by
          classical
          unfold unfixed
          apply Finset.card_lt_card
          rw [Finset.ssubset_iff_of_subset]
          · exact ⟨y, by simp [inside, same], by simp [compatible.idempotent]⟩
          · intro x member
            rw [Finset.mem_filter] at member ⊢
            obtain ⟨all, insideX, moved⟩ := member
            exact ⟨all, insideX, fun held => moved (compatible.fixed x insideX y inside u held)⟩
        rcases ih with rfl | lower
        · exact Or.inr less
        · exact Or.inr (less.trans lower)

theorem pending_le (v : T) (s : Cells ι T) : pending v s ≤ Fintype.card ι := Finset.card_le_univ _

theorem cost_lt (s : Cells ι T) (v : T) :
    cost accept region s v < (Fintype.card ι + 1) * (Fintype.card ι + 1) := by
  have unfixed_le : unfixed accept region v ≤ Fintype.card ι := Finset.card_le_univ _
  have product := Nat.mul_le_mul_right (Fintype.card ι + 1) unfixed_le
  have last := pending_le v s
  rw [cost, Nat.add_mul (Fintype.card ι) 1, Nat.one_mul]
  omega

/-- A value on its way costs no more than it did, wherever it has been put. -/
theorem Reach.cost_le (compatible : Compatible accept region) {s₁ s : Cells ι T} {w u : T}
    (reach : Reach accept region w u) (moved : ∀ a, s.value a = s₁.value a ∨ s.value a = u) :
    cost accept region s u ≤ cost accept region s₁ w := by
  rcases reach.unfixed_lt compatible with rfl | lower
  · have fewer : pending u s ≤ pending u s₁ := by
      apply Finset.card_le_card
      intro a member
      rw [Finset.mem_filter] at member ⊢
      refine ⟨member.1, fun held => member.2 ?_⟩
      rcases moved a with same | now
      · exact same.trans held
      · exact now
    exact Nat.add_le_add_left fewer _
  · have product := Nat.mul_le_mul_right (Fintype.card ι + 1) (Nat.succ_le_of_lt lower)
    rw [Nat.succ_mul] at product
    have last := pending_le u s
    rw [cost, cost]
    omega

variable [DecidableEq ι]

theorem cost_store_lt {s : Cells ι T} {x : ι} {w : T} (differ : s.value x ≠ w) :
    cost accept region (s.store x w) w < cost accept region s w := by
  apply Nat.add_lt_add_left
  apply Finset.card_lt_card
  rw [Finset.ssubset_iff_of_subset]
  · exact ⟨x, by simpa using differ, by simp⟩
  · intro a member
    rw [Finset.mem_filter] at member ⊢
    refine ⟨member.1, fun held => member.2 ?_⟩
    by_cases here : a = x
    · rw [here, value_store_self]
    · rw [value_store_of_ne s here, held]

/-- The rest of the cells have their turn; the induction is on these. -/
theorem passOn_passing {fuel : ℕ} (compatible : Compatible accept region) {s₁ : Cells ι T}
    (closed : Closed region s₁) (symmetric : Symmetric s₁) {x : ι} (inside : x ∈ region) {w : T}
    (enough : cost accept region s₁ w < fuel)
    (below : ∀ s y v, y ∈ region → Closed region s → Normal accept s → Symmetric s →
      cost accept region s (accept y v) < fuel → ∃ s', give accept fuel s y v = some s' ∧
        (s' = s ∧ s.value y = accept y v ∨ Given accept region s y (accept y v) s'))
    (ys : List ι) (links : ∀ y ∈ ys, y ∈ s₁.links x) {done : List ι} {s : Cells ι T}
    (passing : Passing accept region s₁ x w done s) :
    ∃ s', passOn (give accept fuel) x s ys = some s' ∧
      Passing accept region s₁ x w (done ++ ys) s' := by
  induction ys generalizing done s with
  | nil => exact ⟨s, rfl, (List.append_nil done).symm ▸ passing⟩
  | cons y ys ih =>
      have linkY := links y List.mem_cons_self
      have insideY := closed x inside y linkY
      have cheap : cost accept region s (accept y (s.value x)) < fuel := by
        have arrived := passing.reach.cost_le compatible
          (fun a => (passing.tied a).imp_right Tied.value)
        have next := (Reach.step insideY (s.value x)).cost_le compatible
          (fun a => Or.inl (Eq.refl (s.value a)))
        omega
      obtain ⟨s', returned, outcome⟩ := below s y (s.value x) insideY (passing.closed closed)
        passing.normal (passing.symmetric symmetric) cheap
      have passing' : Passing accept region s₁ x w (done ++ [y]) s' := by
        rcases outcome with ⟨rfl, held⟩ | given
        · exact passing.held linkY held
        · exact passing.given compatible closed inside symmetric linkY given
      obtain ⟨last, rest, passed⟩ := ih
        (fun z member => links z (List.mem_cons_of_mem y member)) passing'
      refine ⟨last, ?_, ?_⟩
      · rw [passOn_cons, returned, Option.bind_some, rest]
      · rw [List.append_assoc] at passed
        exact passed

/-- Giving a value returns, with nothing done when the cell holds already what it accepts of it. -/
theorem give_outcome (compatible : Compatible accept region) (fuel : ℕ) (s : Cells ι T) (x : ι)
    (v : T) (inside : x ∈ region) (closed : Closed region s) (normal : Normal accept s)
    (symmetric : Symmetric s) (enough : cost accept region s (accept x v) < fuel) :
    ∃ s', give accept fuel s x v = some s' ∧
      (s' = s ∧ s.value x = accept x v ∨ Given accept region s x (accept x v) s') := by
  induction fuel generalizing s x v with
  | zero => exact absurd enough (Nat.not_lt_zero _)
  | succ fuel ih =>
      by_cases held : s.value x = accept x v
      · exact ⟨s, give_of_eq held, Or.inl ⟨rfl, held⟩⟩
      · have less : cost accept region (s.store x (accept x v)) (accept x v) <
            cost accept region s (accept x v) := cost_store_lt held
        have start : Passing accept region (s.store x (accept x v)) x (accept x v) []
            (s.store x (accept x v)) := Passing.start normal (compatible.idempotent x v)
        have closed' : Closed region (s.store x (accept x v)) := closed
        have symmetric' : Symmetric (s.store x (accept x v)) := symmetric
        obtain ⟨s', passed, passing⟩ := passOn_passing compatible closed' symmetric' inside
          (by omega) ih (s.links x) (fun _ member => member) start
        refine ⟨s', ?_, Or.inr (Passing.finish symmetric passing)⟩
        rw [give_of_ne held, passed]

end Termination

section Stable

/-- A network that has come to rest. -/
structure Stable (accept : ι → T → T) (s : Cells ι T) : Prop where
  normal : Normal accept s
  symmetric : Symmetric s
  consistent : ∀ x y, y ∈ s.links x → Consistent accept s x y

theorem Given.stable {s s' : Cells ι T} {x : ι} {w : T} (stable : Stable accept s)
    (given : Given accept region s x w s') : Stable accept s' where
  normal := given.normal
  symmetric a b linked := by
    rw [given.links] at linked ⊢
    exact stable.symmetric a b linked
  consistent a b linked := by
    rw [given.links] at linked
    exact given.consistent a b linked (stable.consistent a b linked)

variable [DecidableEq ι]

theorem Stable.connect {s : Cells ι T} (stable : Stable accept s) {x y : ι}
    (consistent : Consistent accept s x y) : Stable accept ((s.connect x y).connect y x) where
  normal := stable.normal
  symmetric a b linked := by
    rw [mem_links_connect, mem_links_connect] at linked ⊢
    rcases linked with (linked | ⟨rfl, rfl⟩) | ⟨rfl, rfl⟩
    · exact Or.inl (Or.inl (stable.symmetric a b linked))
    · exact Or.inr ⟨rfl, rfl⟩
    · exact Or.inl (Or.inr ⟨rfl, rfl⟩)
  consistent a b linked := by
    rw [mem_links_connect, mem_links_connect] at linked
    rcases linked with (linked | ⟨rfl, rfl⟩) | ⟨rfl, rfl⟩
    · exact stable.consistent a b linked
    · exact consistent
    · exact Or.symm consistent

variable [DecidableEq T] [Fintype ι]

/-- A network at rest comes to rest again. -/
theorem Stable.give {s : Cells ι T} (stable : Stable accept s)
    (compatible : Compatible accept region) (closed : Closed region s) {x : ι}
    (inside : x ∈ region) {fuel : ℕ}
    (enough : (Fintype.card ι + 1) * (Fintype.card ι + 1) ≤ fuel) (v : T) :
    ∃ s', Cells.give accept fuel s x v = some s' ∧ Stable accept s' ∧ s'.links = s.links ∧
      Reach accept region v (s'.value x) ∧ ∀ a, s'.value a = s.value a ∨ s'.value a = s'.value x := by
  have bound : cost accept region s (accept x v) < _ := cost_lt s (accept x v)
  obtain ⟨s', returned, outcome⟩ := give_outcome compatible fuel s x v inside closed
    stable.normal stable.symmetric (by omega)
  refine ⟨s', returned, ?_⟩
  rcases outcome with ⟨rfl, held⟩ | given
  · exact ⟨stable, rfl, held ▸ Reach.step inside v, fun a => Or.inl rfl⟩
  · exact ⟨given.stable stable, given.links, (Reach.step inside v).trans given.reach,
      fun a => (given.tied a).imp_right Tied.value⟩

end Stable

end Accept

end Cells

end QvPlugin.Lib
