import Mathlib.Data.Fintype.Sum
import QvPlugin.Utils.PropertyBind

/-!
What is bound with `ReadWriteBind` stays in step, in any graph of bindings between Bindables and
properties, as long as the properties that are bound together do not undo one another's values.
-/

set_option autoImplicit false
set_option relaxedAutoImplicit false

namespace QvPlugin.Utils

open Lib

universe u v w x

namespace Bindings

variable {ι : Type u} {π : Type v} {T : Type w} {P : π → Type x}
  (props : (p : π) → QProperty T (P p))

def BoundBy (ops : List (Op ι π T P)) (c d : ι ⊕ π) : Prop := ∃ b, c = .inl b ∧ Op.bind b d ∈ ops

/-- What `q` makes of a value that `p` reads back as it is, `p` reads back as it is. -/
def Respects (p q : π) : Prop :=
  ∀ v, Keeps props p v → Keeps props p ((props q).value ((props q).setProperty v))

def Respectful (ops : List (Op ι π T P)) : Prop :=
  ∀ p q : π, Relation.EqvGen (BoundBy ops) (.inr p) (.inr q) → Respects props p q

def Linked (n : Bindings ι π T P) (c d : ι ⊕ π) : Prop := d ∈ (n.cells props).links c

/-- A binding is made with something that is not bound yet, or else with a value that each property
which is bound to it already, or through others, reads back as it is. -/
def Fits (n : Bindings ι π T P) : Op ι π T P → Prop
  | .bind b target => (n.cells props).links target = [] ∨
      ∀ p, Relation.EqvGen (n.Linked props) target (.inr p) → Keeps props p (n.value b)
  | _ => True

/-- The network has come to rest, and its links are those that `ops` have made. -/
structure InStep (n : Bindings ι π T P) (ops : List (Op ι π T P)) : Prop where
  stable : (n.cells props).Stable (accept props)
  linked : ∀ c d, n.Linked props c d ↔ BoundBy ops c d ∨ BoundBy ops d c

section Region

variable {props}

def Group (n : Bindings ι π T P) (props : (p : π) → QProperty T (P p)) (c : ι ⊕ π) :
    Set (ι ⊕ π) := {d | Relation.EqvGen (n.Linked props) c d}

theorem closed_group (n : Bindings ι π T P) (c : ι ⊕ π) :
    (n.cells props).Closed (n.Group props c) := fun _ inside _ link =>
  Relation.EqvGen.trans _ _ _ inside (Relation.EqvGen.rel _ _ link)

theorem InStep.eqvGen {n : Bindings ι π T P} {ops : List (Op ι π T P)}
    (inStep : InStep props n ops) {c d : ι ⊕ π} (joined : Relation.EqvGen (n.Linked props) c d) :
    Relation.EqvGen (BoundBy ops) c d := by
  induction joined with
  | rel c d link =>
      rcases (inStep.linked c d).mp link with bound | bound
      · exact Relation.EqvGen.rel _ _ bound
      · exact Relation.EqvGen.symm _ _ (Relation.EqvGen.rel _ _ bound)
  | refl c => exact Relation.EqvGen.refl c
  | symm c d _ ih => exact Relation.EqvGen.symm _ _ ih
  | trans c d e _ _ first second => exact Relation.EqvGen.trans _ _ _ first second

theorem compatible_group {n : Bindings ι π T P} {ops all : List (Op ι π T P)}
    (inStep : InStep props n ops) (some_ : ∀ op ∈ ops, op ∈ all)
    (respectful : Respectful props all) (c : ι ⊕ π) :
    Cells.Compatible (accept props) (n.Group props c) where
  idempotent := accept_idempotent props
  fixed d inD e inE v held := by
    rcases d with b | p
    · rfl
    · rcases e with b | q
      · exact held
      · have joined := inStep.eqvGen
          (Relation.EqvGen.trans _ _ _ (Relation.EqvGen.symm _ _ inD) inE)
        have more : ∀ c d : ι ⊕ π, BoundBy ops c d → BoundBy all c d := by
          rintro c d ⟨b, rfl, bound⟩
          exact ⟨b, rfl, some_ _ bound⟩
        exact respectful p q (Relation.EqvGen.mono more _ _ joined) v held

end Region

section Connect

variable [DecidableEq ι] [DecidableEq π] {props}

theorem cells_bind (n : Bindings ι π T P) (b : ι) (target : ι ⊕ π) :
    (ReadBind (n.connectNotify b target) b target).cells props =
      ((n.cells props).connect (.inl b) target).connect target (.inl b) := by
  have first : (n.connectNotify b target).cells props =
      (n.cells props).connect (.inl b) target := by
    refine congrArg (Cells.mk _) (funext fun c => ?_)
    rcases c with a | p
    · by_cases here : a = b
      · subst here
        simp [cells, connectNotify]
      · simp [cells, connectNotify, here]
    · simp [cells, connectNotify]
  rw [← first]
  generalize n.connectNotify b target = m
  rcases target with t | p
  · refine congrArg (Cells.mk _) (funext fun c => ?_)
    rcases c with a | q
    · by_cases here : a = t
      · subst here
        simp [cells, ReadBind, connectNotify]
      · simp [cells, ReadBind, connectNotify, here]
    · simp [cells, ReadBind, connectNotify]
  · refine congrArg (Cells.mk _) (funext fun c => ?_)
    rcases c with a | q
    · simp [cells, ReadBind, connectTrigger]
    · by_cases here : q = p
      · subst here
        simp [cells, ReadBind, connectTrigger]
      · simp [cells, ReadBind, connectTrigger, here]

end Connect

section Laws

variable {props} {n : Bindings ι π T P} {past : List (Op ι π T P)}

theorem exists_of_map {o : Option (Bindings ι π T P)} {s : Cells (ι ⊕ π) T}
    (mapped : o.map (cells props) = some s) : ∃ n, o = some n ∧ n.cells props = s :=
  Option.map_eq_some_iff.mp mapped

theorem InStep.concat {n' : Bindings ι π T P} (inStep : InStep props n past)
    (stable : (n'.cells props).Stable (accept props))
    (links : (n'.cells props).links = (n.cells props).links) {op : Op ι π T P}
    (other : ∀ b target, op ≠ .bind b target) : InStep props n' (past ++ [op]) where
  stable := stable
  linked c d := by
    have bound : ∀ c d : ι ⊕ π, BoundBy (past ++ [op]) c d ↔ BoundBy past c d := by
      intro c d
      refine exists_congr fun b => and_congr_right fun _ => ?_
      rw [List.mem_append, List.mem_singleton]
      exact or_iff_left fun same => other b d same.symm
    have same : n'.Linked props c d ↔ n.Linked props c d := by
      rw [Linked, Linked, links]
    rw [same, bound, bound]
    exact inStep.linked c d

theorem boundBy_concat (past : List (Op ι π T P)) (b : ι) (target c d : ι ⊕ π) :
    BoundBy (past ++ [.bind b target]) c d ↔
      BoundBy past c d ∨ (c = .inl b ∧ d = target) := by
  constructor
  · rintro ⟨a, rfl, bound⟩
    rcases List.mem_append.mp bound with old | new
    · exact Or.inl ⟨a, rfl, old⟩
    · cases List.mem_singleton.mp new
      exact Or.inr ⟨rfl, rfl⟩
  · rintro (⟨a, rfl, bound⟩ | ⟨rfl, rfl⟩)
    · exact ⟨a, rfl, List.mem_append_left _ bound⟩
    · exact ⟨b, rfl, List.mem_append_right _ (List.mem_singleton_self _)⟩

end Laws

section Steps

variable [DecidableEq ι] [DecidableEq π] [DecidableEq T] {props} {fuel : ℕ}
  {n : Bindings ι π T P} {past : List (Op ι π T P)}

theorem passOn_rest (inStep : InStep props n past) (b : ι) (targets : List (ι ⊕ π))
    (linked : ∀ c ∈ targets, n.Linked props (.inl b) c) :
    Cells.passOn (Cells.give (accept props) (fuel + 1)) (.inl b) (n.cells props) targets =
      some (n.cells props) := by
  induction targets with
  | nil => rfl
  | cons c targets ih =>
      have link := linked c List.mem_cons_self
      have held : (n.cells props).value c =
          accept props c ((n.cells props).value (.inl b)) := by
        rcases inStep.stable.consistent _ _ link with same | same
        · exact same
        · rw [same]
          exact (inStep.stable.normal c).symm
      rw [Cells.passOn_cons, Cells.give_of_eq held, Option.bind_some]
      exact ih fun d member => linked d (List.mem_cons_of_mem c member)

def depth (ι : Type u) (π : Type v) [Fintype ι] [Fintype π] : ℕ :=
  (Fintype.card (ι ⊕ π) + 1) * (Fintype.card (ι ⊕ π) + 1)

variable [Fintype ι] [Fintype π]

theorem InStep.give (inStep : InStep props n past) {all : List (Op ι π T P)}
    (some_ : ∀ op ∈ past, op ∈ all) (respectful : Respectful props all)
    (enough : depth ι π ≤ fuel) (c : ι ⊕ π) (v : T) :
    ∃ s, Cells.give (accept props) fuel (n.cells props) c v = some s ∧
      s.Stable (accept props) ∧ s.links = (n.cells props).links ∧
      Cells.Reach (accept props) (n.Group props c) v (s.value c) ∧
      ∀ d, s.value d = (n.cells props).value d ∨ s.value d = s.value c :=
  inStep.stable.give (compatible_group inStep some_ respectful c) (closed_group n c)
    (Relation.EqvGen.refl c) enough v

theorem InStep.arrives (inStep : InStep props n past) {all : List (Op ι π T P)}
    (some_ : ∀ op ∈ past, op ∈ all) (respectful : Respectful props all)
    (enough : depth ι π ≤ fuel) {b : ι} {target : ι ⊕ π} (fits : Fits props n (.bind b target)) :
    ∃ s, Cells.give (accept props) fuel (n.cells props) target (n.value b) = some s ∧
      s.Stable (accept props) ∧ s.links = (n.cells props).links ∧
      s.Consistent (accept props) (.inl b) target := by
  have consistent : ∀ s : Cells (ι ⊕ π) T, s.Normal (accept props) →
      s.value target = accept props target (n.value b) →
      (s.value (.inl b) = n.value b ∨ s.value (.inl b) = s.value target) →
      s.Consistent (accept props) (.inl b) target := by
    intro s normal arrived kept
    refine Or.inl ?_
    rcases kept with same | now
    · rw [same, arrived]
    · rw [now, normal target]
  rcases fits with unbound | kept
  · have closed : (n.cells props).Closed {target} := by
      intro c inside d link
      rw [Set.mem_singleton_iff.mp inside, unbound] at link
      exact absurd link List.not_mem_nil
    have compatible : Cells.Compatible (accept props) {target} := by
      refine ⟨accept_idempotent props, fun c inC d inD v held => ?_⟩
      rw [Set.mem_singleton_iff.mp inC, Set.mem_singleton_iff.mp inD]
      exact accept_idempotent props target v
    obtain ⟨s, given, stable, links, reach, moved⟩ := inStep.stable.give compatible closed
      (Set.mem_singleton target) enough (n.value b)
    have arrived := reach.eq_accept (accept_idempotent props target _) (stable.normal target)
    exact ⟨s, given, stable, links, consistent s stable.normal arrived (moved (.inl b))⟩
  · obtain ⟨s, given, stable, links, reach, moved⟩ := inStep.give some_ respectful enough target
      (n.value b)
    have fixed : ∀ d ∈ n.Group props target, accept props d (n.value b) = n.value b := by
      rintro (a | p) inside
      · rfl
      · exact kept p inside
    have same := reach.eq_of_fixed fixed
    have arrived : s.value target = accept props target (n.value b) := by
      rw [same, fixed target (Relation.EqvGen.refl target)]
    exact ⟨s, given, stable, links, consistent s stable.normal arrived (moved (.inl b))⟩

variable [∀ p, DecidableEq (P p)]

/-- One operation returns and leaves everything in step. -/
theorem InStep.step (inStep : InStep props n past) {all : List (Op ι π T P)}
    (some_ : ∀ op ∈ past, op ∈ all) (respectful : Respectful props all)
    (enough : depth ι π ≤ fuel) (op : Op ι π T P) (fits : Fits props n op) :
    ∃ n', Op.step props fuel n op = some n' ∧ InStep props n' (past ++ [op]) := by
  cases op with
  | bind b target =>
      obtain ⟨s, given, stable, links, consistent⟩ :=
        inStep.arrives some_ respectful enough fits
      obtain ⟨m, returned, rfl⟩ :=
        exists_of_map ((refines props fuel n target (n.value b)).trans given)
      refine ⟨ReadBind (m.connectNotify b target) b target, ?_, ?_, fun c d => ?_⟩
      · rw [Op.step, ReadWriteBind, WriteBind, returned]
        rfl
      · rw [cells_bind]
        exact stable.connect consistent
      · rw [Linked, cells_bind, Cells.mem_links_connect, Cells.mem_links_connect, links,
          boundBy_concat, boundBy_concat]
        have before := inStep.linked c d
        rw [Linked] at before
        rw [before]
        tauto
  | assign b f =>
      obtain ⟨s, given, stable, links, -⟩ := inStep.give some_ respectful enough (.inl b) f
      obtain ⟨n', returned, rfl⟩ := exists_of_map ((refines props fuel n (.inl b) f).trans given)
      exact ⟨n', returned, inStep.concat stable links (by simp)⟩
  | load b decode =>
      obtain ⟨more, rfl⟩ : ∃ more, fuel = more + 1 := by
        have positive : 0 < depth ι π := Nat.mul_pos (Nat.succ_pos _) (Nat.succ_pos _)
        exact ⟨fuel - 1, by omega⟩
      by_cases same : n.value b = decode (n.value b)
      · have kept : n.store b (decode (n.value b)) = n := by
          simp [store, ← same]
        have rest := map_emitNotify props (refines props (more + 1)) n b
        rw [passOn_rest inStep b (n.notify b) fun c member => member] at rest
        obtain ⟨n', returned, cells_⟩ := exists_of_map rest
        refine ⟨n', ?_, inStep.concat (cells_ ▸ inStep.stable) (by rw [cells_]) (by simp)⟩
        rw [Op.step, Deserialize, kept, returned]
      · obtain ⟨s, given, stable, links, -⟩ := inStep.give some_ respectful
          (le_trans enough (Nat.le_succ _)) (.inl b) (decode (n.value b))
        have mapped := map_set props (refines props (more + 1)) n b (decode (n.value b))
        obtain ⟨n', returned, rfl⟩ := exists_of_map (mapped.trans given)
        refine ⟨n', ?_, inStep.concat stable links (by simp)⟩
        rw [set, if_neg same] at returned
        exact returned
  | edit p held =>
      obtain ⟨s, given, stable, links, -⟩ := inStep.give some_ respectful
        (le_trans enough (Nat.le_succ _)) (.inr p) ((props p).value held)
      have mapped := map_change props (refines props fuel) n p held
      obtain ⟨n', returned, rfl⟩ := exists_of_map (mapped.trans given)
      exact ⟨n', returned, inStep.concat stable links (by simp)⟩

end Steps

section Main

variable [DecidableEq ι] [DecidableEq π] [DecidableEq T] [∀ p, DecidableEq (P p)] [Fintype ι]
  [Fintype π] {props}

end Main

end Bindings

end QvPlugin.Utils
