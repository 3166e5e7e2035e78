import Mathlib.Data.List.Basic
import Mathlib.Logic.Function.Basic
import QvPlugin.Lib.History

/-!
Machines side by side: each has a state of its own, and all read an environment that some actions
change. A run of the family is the runs of its members.
-/

set_option autoImplicit false
set_option relaxedAutoImplicit false

namespace QvPlugin.Lib

universe u v w x y

/-- An environment and the states of the members. -/
structure Family (ι : Type u) (E : Type v) (S : Type w) where
  env : E
  member : ι → S

inductive FamilyAction (ι : Type u) (U : Type x) (A : Type y) where
  | env (change : U)
  | member (i : ι) (a : A)

namespace Family

variable {ι : Type u} {E : Type v} {S : Type w} {U : Type x} {A : Type y}

def envAfter (turn : E → U → E) : E → List (FamilyAction ι U A) → E
  | e, [] => e
  | e, .env change :: as => envAfter turn (turn e change) as
  | e, .member _ _ :: as => envAfter turn e as

variable [DecidableEq ι]

def put (f : Family ι E S) (i : ι) (s : S) : Family ι E S :=
  { f with member := Function.update f.member i s }

@[simp] theorem member_put_self (f : Family ι E S) (i : ι) (s : S) : (f.put i s).member i = s :=
  Function.update_self ..

theorem member_put_of_ne (f : Family ι E S) {i j : ι} (other : i ≠ j) (s : S) :
    (f.put j s).member i = f.member i :=
  Function.update_of_ne other ..

/-- One action. A member's action sees the environment and changes the member's state only. -/
def step (turn : E → U → E) (one : S → E × A → Option S) (f : Family ι E S) :
    FamilyAction ι U A → Option (Family ι E S)
  | .env change => some { f with env := turn f.env change }
  | .member i a =>
      (one (f.member i) (f.env, a)).map (f.put i)

/-- The actions of one member, each with the environment that it meets. -/
def own (turn : E → U → E) (i : ι) : E → List (FamilyAction ι U A) → List (E × A)
  | _, [] => []
  | e, .env change :: as => own turn i (turn e change) as
  | e, .member j a :: as => if j = i then (e, a) :: own turn i e as else own turn i e as

variable {turn : E → U → E} {one : S → E × A → Option S}

/-- A run of the family succeeds exactly when the run of each member's own actions does, and ends
where these end. -/
theorem run_iff {f g : Family ι E S} {as : List (FamilyAction ι U A)} :
    run (step turn one) f as = some g ↔
      g.env = envAfter turn f.env as ∧
        ∀ i, run one (f.member i) (own turn i f.env as) = some (g.member i) := by
  induction as generalizing f with
  | nil =>
      rw [run, Option.some.injEq]
      constructor
      · rintro rfl
        exact ⟨rfl, fun i => rfl⟩
      · rintro ⟨env, members⟩
        obtain ⟨e, m⟩ := f
        obtain ⟨e', m'⟩ := g
        have sameMembers : m = m' := funext fun i => Option.some.inj (members i)
        subst sameMembers
        subst env
        rfl
  | cons a as ih =>
      cases a with
      | env change =>
          have stepped : step turn one f (.env change) =
              some { f with env := turn f.env change } := rfl
          rw [run_cons stepped, ih]
          rfl
      | member j a =>
          have others {i : ι} (other : i ≠ j) :
              own turn i f.env (.member j a :: as) = own turn i f.env as :=
            if_neg other.symm
          have self : own turn j f.env (.member j a :: as) = (f.env, a) :: own turn j f.env as :=
            if_pos rfl
          constructor
          · intro ran
            obtain ⟨f', stepped, rest⟩ := exists_step_of_run_cons ran
            obtain ⟨s, moved, rfl⟩ := Option.map_eq_some_iff.mp stepped
            obtain ⟨env, members⟩ := ih.mp rest
            refine ⟨env, fun i => ?_⟩
            have mine := members i
            by_cases here : i = j
            · subst here
              rw [member_put_self] at mine
              rw [self, run_cons moved]
              exact mine
            · rw [member_put_of_ne f here] at mine
              rw [others here]
              exact mine
          · rintro ⟨env, members⟩
            have first := members j
            rw [self] at first
            obtain ⟨s, moved, mine⟩ := exists_step_of_run_cons first
            have stepped : step turn one f (.member j a) = some (f.put j s) := by
              rw [step, moved, Option.map_some]
            rw [run_cons stepped, ih]
            refine ⟨env, fun i => ?_⟩
            by_cases here : i = j
            · subst here
              rw [member_put_self]
              exact mine
            · have theirs := members i
              rw [others here] at theirs
              rw [member_put_of_ne f here]
              exact theirs

end Family

end QvPlugin.Lib
