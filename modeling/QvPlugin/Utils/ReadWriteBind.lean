import QvPlugin.Lib.Run
import QvPlugin.Lib.Shared
import QvPlugin.Utils.Propagation

/-!
Bindables that are linked with `ReadWriteBind` behave as cells that share values, whatever the
graph of the links.
-/

set_option autoImplicit false
set_option relaxedAutoImplicit false

namespace QvPlugin.Utils

open Lib

universe u v w

namespace Bindable

variable {ι : Type u} {κ : Type v} {T : Type w}

inductive LinkOp (ι : Type u) (κ : Type v) (T : Type w) where
  | link (a b : ι)
  | assign (b : ι) (f : T)
  | assignFrom (b f : ι)
  | load (b : ι) (decode : T → T)
  | observe (b : ι) (id : κ)

def Linked (n : Network ι κ T) (a b : ι) : Prop := Slot.set b ∈ n.slots a

def LinkedBy (ops : List (LinkOp ι κ T)) (a b : ι) : Prop := LinkOp.link a b ∈ ops

/-- Each Bindable emitted at most once, and exactly once if its value changed. -/
def EmitsOnce [DecidableEq ι] (n n' : Network ι κ T) : Prop :=
  ∃ new : List ι, n'.emitted = n.emitted ++ new ∧
    ∀ x, new.count x ≤ 1 ∧ (n'.value x ≠ n.value x → new.count x = 1)

/-- The Bindable that an operation writes to and the value it assigns, loads or pushes, given the
values that it finds. -/
def LinkOp.writes (value : ι → T) : LinkOp ι κ T → Option (ι × T)
  | .link a b => some (b, value a)
  | .assign b f => some (b, f)
  | .assignFrom b f => some (b, value f)
  | .load b decode => some (b, decode (value b))
  | .observe _ _ => none

/-- What an operation means for cells that share values. -/
noncomputable def LinkOp.meaning (s : Shared ι T) : LinkOp ι κ T → Shared ι T
  | .link a b => s.join a b
  | .assign b f => s.write b f
  | .assignFrom b f => s.write b (s.value f)
  | .load b decode => s.write b (decode (s.value b))
  | .observe _ _ => s

/-- The network holds the values of the cells, and its links join their groups. -/
structure Shares (n : Network ι κ T) (s : Shared ι T) : Prop where
  value : n.value = s.value
  joined : s.joined = Relation.EqvGen.setoid (Linked n)
  symmetric : ∀ x y, Linked n x y → Linked n y x

section Abstraction

theorem Shares.start {n : Network ι κ T} (unlinked : ∀ x y, ¬ Linked n x y) :
    Shares n (Shared.separate n.value) where
  value := rfl
  joined := le_antisymm bot_le (Setoid.eqvGen_le fun x y linked => absurd linked (unlinked x y))
  symmetric x y linked := absurd linked (unlinked x y)

theorem Shares.agree {n : Network ι κ T} {s : Shared ι T} (shares : Shares n s) {x y : ι}
    (together : s.joined x y) : n.value x = n.value y := by
  rw [shares.value]
  exact s.agree together

theorem Shares.joined_of_linked {n : Network ι κ T} {s : Shared ι T} (shares : Shares n s) {x y : ι}
    (linked : Linked n x y) : s.joined x y := by
  rw [shares.joined]
  exact Relation.EqvGen.rel x y linked

theorem Shares.closed {n : Network ι κ T} {s : Shared ι T} (shares : Shares n s) (b : ι) :
    Closed (fun x => s.joined b x) n := by
  intro x target inside slot
  exact s.joined.trans' inside (shares.joined_of_linked slot)

theorem Shares.spread {n n' : Network ι κ T} {s : Shared ι T} {b : ι} {v : T} (shares : Shares n s)
    (spread : Spread (fun x => s.joined b x) v n n') (reached : n'.value b = v) :
    Shares n' (s.write b v) := by
  have same : Linked n' = Linked n := by
    funext x y
    unfold Linked
    rw [spread.slots]
  have passed : ∀ x y, n'.value x = v → Linked n x y → n'.value y = v := by
    intro x y held linked
    by_cases before : n.value x = v
    · have agreed := shares.agree (shares.joined_of_linked linked)
      exact spread.kept (agreed ▸ before)
    · have published := spread.published x before held
      have slot : Slot.set y ∈ n'.slots x := by
        rw [spread.slots]
        exact linked
      have given : n'.value y = n'.value x := published (.set y) slot
      rw [given, held]
  constructor
  · funext x
    by_cases together : s.joined b x
    · have path : Relation.EqvGen (Linked n) b x := by
        rw [shares.joined] at together
        exact together
      rw [Shared.value_write_joined together]
      have closed : ∀ x y, Linked n x y → (n'.value x = v ↔ n'.value y = v) := fun x y linked =>
        ⟨fun held => passed x y held linked,
          fun held => passed y x held (shares.symmetric x y linked)⟩
      exact (iff_of_eqvGen closed path).mp reached
    · rw [Shared.value_write_apart together, ← shares.value]
      exact (spread.value x).resolve_right fun inside => together inside.1
  · rw [same]
    exact shares.joined
  · rw [same]
    exact shares.symmetric

end Abstraction

section Emissions

variable [DecidableEq ι]

theorem EmitsOnce.refl (n : Network ι κ T) : EmitsOnce n n := by
  refine ⟨[], (List.append_nil _).symm, fun x => ⟨by simp, fun changed => absurd rfl changed⟩⟩

theorem emitsOnce_of_spread {region : ι → Prop} {v : T} {n n' : Network ι κ T}
    (before : List ι) (nodup : before.Nodup) (held : ∀ x ∈ before, n.value x = v)
    (spread : Spread region v { n with emitted := n.emitted ++ before } n') : EmitsOnce n n' := by
  obtain ⟨new, log, nodupNew, members⟩ := spread.emitted
  have nodupAll : (before ++ new).Nodup := by
    apply List.Nodup.append nodup nodupNew
    intro x member member'
    exact ((members x).mp member').1 (held x member)
  refine ⟨before ++ new, by rw [log, List.append_assoc], fun x => ?_⟩
  constructor
  · exact List.nodup_iff_count_le_one.mp nodupAll x
  · intro changed
    have now : n'.value x = v := ((spread.value x).resolve_left changed).2
    have member : x ∈ new := (members x).mpr ⟨fun was => changed (now.trans was.symm), now⟩
    exact List.count_eq_one_of_mem nodupAll (List.mem_append_right before member)

theorem Spread.emitsOnce {region : ι → Prop} {v : T} {n n' : Network ι κ T}
    (spread : Spread region v n n') : EmitsOnce n n' := by
  apply emitsOnce_of_spread [] List.nodup_nil (fun x member => absurd member List.not_mem_nil)
  rw [List.append_nil]
  exact spread

end Emissions

section Steps

variable [DecidableEq ι]

theorem linked_connect (n : Network ι κ T) (a b x y : ι) :
    Linked ((n.connect a (.set b)).connect b (.set a)) x y ↔
      Linked n x y ∨ (x = a ∧ y = b) ∨ (x = b ∧ y = a) := by
  unfold Linked
  rw [Network.mem_slots_connect, Network.mem_slots_connect, Slot.set.injEq, Slot.set.injEq, or_assoc]

variable [DecidableEq κ]

theorem observe_shares {n : Network ι κ T} {s : Shared ι T} (shares : Shares n s) (b : ι) (id : κ) :
    Shares (Observe n b id) s := by
  have links : Linked (Observe n b id) = Linked n := by
    funext x y
    apply propext
    unfold Linked Observe
    rw [Network.slots_deliver, Network.mem_slots_connect]
    simp
  constructor
  · exact shares.value
  · rw [links]
    exact shares.joined
  · rw [links]
    exact shares.symmetric

variable [DecidableEq T]

def LinkOp.step (fuel : ℕ) (n : Network ι κ T) : LinkOp ι κ T → Option (Network ι κ T)
  | .link a b => ReadWriteBind fuel n a b
  | .assign b f => Bindable.assign fuel n b f
  | .assignFrom b f => Bindable.assignFrom fuel n b f
  | .load b decode => Deserialize fuel n b decode
  | .observe b id => some (Observe n b id)

variable [Fintype ι] {fuel : ℕ} {n : Network ι κ T} {s : Shared ι T}

theorem set_shares (enough : Fintype.card ι < fuel) (shares : Shares n s) (b : ι) (v : T) :
    ∃ n', set fuel n b v = some n' ∧ Shares n' (s.write b v) ∧ EmitsOnce n n' ∧
      n'.slots = n.slots := by
  obtain ⟨n', returned, spread, reached⟩ := set_spreads fuel n b (shares.closed b)
    (s.joined.refl' b) (lt_of_le_of_lt (pending_le v n) enough)
  exact ⟨n', returned, shares.spread spread reached, spread.emitsOnce, spread.slots⟩

theorem load_shares (enough : Fintype.card ι < fuel) (shares : Shares n s) (b : ι) (decode : T → T) :
    ∃ n', Deserialize fuel n b decode = some n' ∧ Shares n' (s.write b (decode (s.value b))) ∧
      EmitsOnce n n' := by
  unfold Deserialize
  rw [← shares.value]
  generalize decode (n.value b) = v
  have closed : Closed (fun x => s.joined b x) (n.store b v) := shares.closed b
  obtain ⟨n', returned, spread, published⟩ := EmitNotify_spreads closed (s.joined.refl' b) enough
  rw [n.value_store_self] at spread
  have reached : n'.value b = v := spread.kept (n.value_store_self b v)
  refine ⟨n', returned, ?_⟩
  by_cases same : n.value b = v
  · have unchanged : n.store b v = n := by
      rw [← same]
      exact n.store_value_self b
    rw [unchanged] at spread
    have sharesLog : Shares (n.log b) s := ⟨shares.value, shares.joined, shares.symmetric⟩
    have held : ∀ x ∈ [b], n.value x = v := by
      intro x member
      rw [List.mem_singleton.mp member]
      exact same
    exact ⟨sharesLog.spread spread reached,
      emitsOnce_of_spread [b] (List.nodup_singleton b) held spread⟩
  · have whole := spread.of_store same (s.joined.refl' b) published
    exact ⟨shares.spread whole reached, whole.emitsOnce⟩

theorem link_shares (enough : Fintype.card ι < fuel) (shares : Shares n s) (a b : ι) :
    ∃ n', ReadWriteBind fuel n a b = some n' ∧ Shares n' (s.join a b) ∧ EmitsOnce n n' := by
  obtain ⟨m, returned, sharesM, once, slots⟩ := set_shares enough shares b (n.value a)
  refine ⟨(m.connect a (.set b)).connect b (.set a), ?_, ?_, once⟩
  · unfold ReadWriteBind WriteBind
    rw [returned]
    rfl
  · have links : Linked ((m.connect a (.set b)).connect b (.set a)) =
        fun x y => Linked m x y ∨ (x = a ∧ y = b) ∨ (x = b ∧ y = a) := by
      funext x y
      exact propext (linked_connect m a b x y)
    constructor
    · have values : (s.join a b).value = (s.write b (s.value a)).value := rfl
      rw [values, ← shares.value]
      exact sharesM.value
    · rw [links, setoid_or, setoid_link, ← sharesM.joined]
      rfl
    · rw [links]
      rintro x y (linked | pair | pair)
      · exact Or.inl (sharesM.symmetric x y linked)
      · exact Or.inr (Or.inr pair.symm)
      · exact Or.inr (Or.inl pair.symm)

/-- One operation returns, does what it means for the shared cells, and notifies once. -/
theorem LinkOp.step_shares (enough : Fintype.card ι < fuel) (shares : Shares n s)
    (op : LinkOp ι κ T) :
    ∃ n', LinkOp.step fuel n op = some n' ∧ Shares n' (LinkOp.meaning s op) ∧ EmitsOnce n n' := by
  cases op with
  | link a b => exact link_shares enough shares a b
  | assign b f =>
      obtain ⟨n', returned, sharesAfter, once, -⟩ := set_shares enough shares b f
      exact ⟨n', returned, sharesAfter, once⟩
  | assignFrom b f =>
      obtain ⟨n', returned, sharesAfter, once, -⟩ := set_shares enough shares b (n.value f)
      rw [shares.value] at sharesAfter
      exact ⟨n', returned, sharesAfter, once⟩
  | load b decode => exact load_shares enough shares b decode
  | observe b id => exact ⟨Observe n b id, rfl, observe_shares shares b id, EmitsOnce.refl n⟩

end Steps

section Runs

/-- The operations join exactly what their links connect. -/
theorem joined_foldl_meaning (ops : List (LinkOp ι κ T)) (s : Shared ι T) :
    (ops.foldl LinkOp.meaning s).joined = s.joined ⊔ Relation.EqvGen.setoid (LinkedBy ops) := by
  induction ops generalizing s with
  | nil =>
      have none : Relation.EqvGen.setoid (LinkedBy ([] : List (LinkOp ι κ T))) ≤ s.joined :=
        Setoid.eqvGen_le fun x y linked => absurd linked List.not_mem_nil
      exact (sup_eq_left.mpr none).symm
  | cons op ops ih =>
      rw [List.foldl_cons, ih]
      have rest : (∀ a b, op ≠ .link a b) → LinkedBy (op :: ops) = LinkedBy ops := by
        intro other
        funext x y
        apply propext
        unfold LinkedBy
        rw [List.mem_cons]
        exact ⟨fun member => member.resolve_left (fun here => other x y here.symm), Or.inr⟩
      cases op with
      | link a b =>
          have first : LinkedBy (.link a b :: ops) =
              fun x y => (x = a ∧ y = b) ∨ LinkedBy ops x y := by
            funext x y
            apply propext
            unfold LinkedBy
            rw [List.mem_cons, LinkOp.link.injEq]
          rw [first, setoid_or, ← sup_assoc]
          rfl
      | assign b f => rw [rest (fun _ _ => nofun)]; rfl
      | assignFrom b f => rw [rest (fun _ _ => nofun)]; rfl
      | load b decode => rw [rest (fun _ _ => nofun)]; rfl
      | observe b id => rw [rest (fun _ _ => nofun)]; rfl

variable (ops : List (LinkOp ι κ T)) (s : Shared ι T) (x : ι)

theorem joined_le_foldl : s.joined ≤ (ops.foldl LinkOp.meaning s).joined := by
  rw [joined_foldl_meaning]
  exact le_sup_left

theorem value_meaning_joined {op : LinkOp ι κ T} {b x : ι} {v : T}
    (writes : op.writes s.value = some (b, v)) (together : (op.meaning s).joined b x) :
    (op.meaning s).value x = v := by
  have reached : (op.meaning s).value b = v := by
    cases op with
    | observe b' id => exact nomatch writes
    | link _ _ | assign _ _ | assignFrom _ _ | load _ _ =>
        cases writes
        exact Shared.value_write_joined (s.joined.refl' b) _
  rw [← reached]
  exact ((op.meaning s).agree together).symm

theorem value_meaning_apart {op : LinkOp ι κ T} {x : ι}
    (apart : ∀ b v, op.writes s.value = some (b, v) → ¬ s.joined b x) :
    (op.meaning s).value x = s.value x := by
  cases op with
  | link a b => exact Shared.value_write_apart (apart b _ rfl) _
  | assign b f => exact Shared.value_write_apart (apart b _ rfl) _
  | assignFrom b f => exact Shared.value_write_apart (apart b _ rfl) _
  | load b decode => exact Shared.value_write_apart (apart b _ rfl) _
  | observe b id => rfl

variable {ops s x}

theorem value_foldl_apart (apart : ∀ op ∈ ops, ∀ value b v, op.writes value = some (b, v) →
    ¬ (ops.foldl LinkOp.meaning s).joined b x) :
    (ops.foldl LinkOp.meaning s).value x = s.value x := by
  induction ops generalizing s with
  | nil => rfl
  | cons op ops ih =>
      have first : (op.meaning s).value x = s.value x := by
        apply value_meaning_apart
        intro b v writes together
        exact apart op List.mem_cons_self s.value b v writes
          (joined_le_foldl (op :: ops) s together)
      have rest := ih (s := op.meaning s)
        (fun later member => apart later (List.mem_cons_of_mem op member))
      rw [List.foldl_cons, rest, first]

theorem joined_foldl_apart (apart : ∀ op ∈ ops, ∀ value b v, op.writes value = some (b, v) →
    ¬ (ops.foldl LinkOp.meaning s).joined x b) {y : ι}
    (together : (ops.foldl LinkOp.meaning s).joined x y) : s.joined x y := by
  have outside : ∀ a b, LinkedBy ops a b → ¬ s.joined x a ∧ ¬ s.joined x b := by
    intro a b linked
    have notB := apart (.link a b) linked s.value b (s.value a) rfl
    have pair : (ops.foldl LinkOp.meaning s).joined a b := by
      rw [joined_foldl_meaning]
      exact (show Relation.EqvGen.setoid (LinkedBy ops) ≤ _ from le_sup_right)
        (Relation.EqvGen.rel a b linked)
    constructor
    · intro inA
      exact notB (Setoid.trans' _ (joined_le_foldl ops s inA) pair)
    · intro inB
      exact notB (joined_le_foldl ops s inB)
  have bound : (ops.foldl LinkOp.meaning s).joined ≤ Setoid.ker (fun y => s.joined x y) := by
    rw [joined_foldl_meaning]
    apply sup_le
    · intro a b related
      exact propext ⟨fun inA => s.joined.trans' inA related,
        fun inB => s.joined.trans' inB (s.joined.symm' related)⟩
    · apply Setoid.eqvGen_le
      intro a b linked
      obtain ⟨notA, notB⟩ := outside a b linked
      exact propext ⟨fun inA => absurd inA notA, fun inB => absurd inB notB⟩
  exact (bound together).mp (s.joined.refl' x)

end Runs

section Main

variable [DecidableEq ι] [DecidableEq κ] [DecidableEq T] [Fintype ι]

/-- Bindables linked in any graph, in runs of any operations: every operation returns and notifies
once; what is connected holds one value, the last one that was written to any of it. -/
theorem linked_bindables_agree (fuel : ℕ) (enough : Fintype.card ι < fuel) (n₀ : Network ι κ T)
    (unlinked : ∀ x y, ¬ Linked n₀ x y) (ops : List (LinkOp ι κ T)) :
    ∃ n, run (LinkOp.step fuel) n₀ ops = some n ∧
      (∀ x y, Relation.EqvGen (LinkedBy ops) x y → n.value x = n.value y) ∧
      (∀ before op after m b v, ops = before ++ op :: after →
        run (LinkOp.step fuel) n₀ before = some m → op.writes m.value = some (b, v) →
        (∀ later ∈ after, ∀ value b' v', later.writes value = some (b', v') →
          ¬ Relation.EqvGen (LinkedBy ops) b b') →
        ∀ x, Relation.EqvGen (LinkedBy ops) b x → n.value x = v) ∧
      ∀ op, ∃ n', LinkOp.step fuel n op = some n' ∧ EmitsOnce n n' := by
  have steps : ∀ (n : Network ι κ T) s op, Shares n s →
      ∃ n', LinkOp.step fuel n op = some n' ∧ Shares n' (LinkOp.meaning s op) := by
    intro n s op shares
    obtain ⟨n', returned, after, -⟩ := op.step_shares enough shares
    exact ⟨n', returned, after⟩
  have start := Shares.start unlinked
  obtain ⟨n, ran, shares⟩ := run_simulates steps start ops
  have groups : ∀ x y, Relation.EqvGen (LinkedBy ops) x y ↔
      (ops.foldl LinkOp.meaning (Shared.separate n₀.value)).joined x y := by
    intro x y
    rw [joined_foldl_meaning]
    show _ ↔ (⊥ ⊔ Relation.EqvGen.setoid (LinkedBy ops)) x y
    rw [bot_sup_eq]
    rfl
  refine ⟨n, ran, ?_, ?_, ?_⟩
  · intro x y together
    exact shares.agree ((groups x y).mp together)
  · intro before op after m b v split ranBefore writes last x together
    obtain ⟨m', ranBefore', sharesBefore⟩ := run_simulates steps start before
    have same : m = m' := Option.some.inj (ranBefore.symm.trans ranBefore')
    rw [same, sharesBefore.value] at writes
    have whole : ops.foldl LinkOp.meaning (Shared.separate n₀.value) =
        after.foldl LinkOp.meaning
          (op.meaning (before.foldl LinkOp.meaning (Shared.separate n₀.value))) := by
      rw [split, List.foldl_append, List.foldl_cons]
    generalize before.foldl LinkOp.meaning (Shared.separate n₀.value) = s at writes whole
    have inGroup := (groups b x).mp together
    have untouched : ∀ later ∈ after, ∀ value b' v', later.writes value = some (b', v') →
        ¬ (after.foldl LinkOp.meaning (op.meaning s)).joined b b' := by
      intro later member value b' v' writes' joined
      rw [← whole] at joined
      exact last later member value b' v' writes' ((groups b b').mpr joined)
    rw [whole] at inGroup
    have untouchedX : ∀ later ∈ after, ∀ value b' v', later.writes value = some (b', v') →
        ¬ (after.foldl LinkOp.meaning (op.meaning s)).joined b' x := by
      intro later member value b' v' writes' joined
      exact untouched later member value b' v' writes'
        (Setoid.trans' _ inGroup (Setoid.symm' _ joined))
    rw [shares.value, whole, value_foldl_apart untouchedX]
    exact value_meaning_joined s writes (joined_foldl_apart untouched inGroup)
  · intro op
    obtain ⟨n', returned, -, once⟩ := op.step_shares enough shares
    exact ⟨n', returned, once⟩

end Main

/-- Three Bindables linked in a ring, one of them twice: an assignment to one reaches the others. -/
theorem ring_agrees :
    let ops : List (LinkOp (Fin 3) Unit ℕ) :=
      [.link 0 1, .link 1 2, .link 2 0, .link 0 1, .assign 1 7]
    let n₀ : Network (Fin 3) Unit ℕ := ⟨fun x => x, fun _ => [], [], fun _ _ => none⟩
    ∃ n, run (LinkOp.step 4) n₀ ops = some n ∧ n.value 0 = 7 := by
  intro ops n₀
  obtain ⟨n, ran, -, last, -⟩ := linked_bindables_agree 4 (by decide) n₀ (by simp [Linked, n₀]) ops
  have together : Relation.EqvGen (LinkedBy ops) 1 0 :=
    Relation.EqvGen.symm 0 1 (Relation.EqvGen.rel 0 1 List.mem_cons_self)
  have value := last [.link 0 1, .link 1 2, .link 2 0, .link 0 1] (.assign 1 7) [] _ 1 7 rfl rfl rfl
    (fun later member => absurd member List.not_mem_nil) 0 together
  exact ⟨n, ran, value⟩

end Bindable

end QvPlugin.Utils
