import QvPlugin.Utils.ReadWriteBind
import QvPlugin.Utils.RoundTrip

/-!
A struct whose `P` members are live Bindables, linked among themselves and with others: what a load
emits reaches members that have been loaded already, and members that have no key in the document.
-/

set_option autoImplicit false
set_option relaxedAutoImplicit false

namespace QvPlugin.Utils

open Lib Qt

universe v

/-- One name of a `P` clause: the member, and the default that its declaration gives it. -/
structure LinkedMember (ι α : Type) where
  name : QString
  member : ι
  defaultvalue : α

namespace LinkedMember

variable {ι α : Type} {κ : Type v} (p : Platform) (t : Ty α)

def LeftOut (n : Network ι κ α) (f : LinkedMember ι α) : Prop :=
  n.value f.member = f.defaultvalue ∨ t.Omitted (n.value f.member)

noncomputable def read (json : QJsonValue) (s : Shared ι α) (f : LinkedMember ι α) : Shared ι α :=
  if (toObject json).contains f.name then
    s.write f.member
      (t.deserialize p (s.value f.member) (QJsonObject.subscript (toObject json) f.name))
  else s

section Struct

variable [DecidableEq ι] [DecidableEq α]

def lens (f : LinkedMember ι α) : Lens (ι → α) (Bindable f.defaultvalue) where
  get s := ⟨s f.member⟩
  set a s := Function.update s f.member a.value
  get_set a s := congrArg Bindable.mk (Function.update_self f.member a.value s)
  set_get s := Function.update_eq_self f.member s
  set_set a b s := Function.update_idem b.value a.value s

def clauses (t : Ty α) : List (LinkedMember ι α) → Clauses (ι → α)
  | [] => .nil
  | f :: fields => .P f.name f.lens t (clauses t fields)

def toJson (fields : List (LinkedMember ι α)) (n : Network ι κ α) : QJsonObject :=
  (clauses t fields).toJson p n.value

variable [DecidableEq κ]

/-- `__FROMJSON_P`. -/
def load (fuel : ℕ) (json : QJsonValue) (n : Network ι κ α) (f : LinkedMember ι α) :
    Option (Network ι κ α) :=
  if (toObject json).contains f.name then
    Bindable.Deserialize fuel n f.member fun value =>
      t.deserialize p value (QJsonObject.subscript (toObject json) f.name)
  else some n

def loadJson (fuel : ℕ) (fields : List (LinkedMember ι α)) (json : QJsonValue)
    (n : Network ι κ α) : Option (Network ι κ α) :=
  fields.foldlM (load p t fuel json) n

end Struct

section Clauses

variable [DecidableEq ι] [DecidableEq α]

theorem keys_clauses (fields : List (LinkedMember ι α)) :
    (clauses t fields).keys = fields.map name := by
  induction fields with
  | nil => rw [clauses, Clauses.keys, List.map_nil]
  | cons f fields ih => rw [clauses, Clauses.keys, ih, List.map_cons]

theorem apart_clauses {f : LinkedMember ι α} {fields : List (LinkedMember ι α)}
    (other : f.member ∉ fields.map member) : (clauses t fields).Apart f.lens := by
  induction fields with
  | nil =>
      rw [clauses, Clauses.Apart]
      trivial
  | cons g fields ih =>
      rw [List.map_cons, List.mem_cons, not_or] at other
      rw [clauses, Clauses.Apart]
      refine ⟨fun a b s => ?_, ih other.2⟩
      show Function.update (Function.update s g.member b.value) f.member a.value =
        Function.update (Function.update s f.member a.value) g.member b.value
      exact Function.update_comm (Ne.symm other.1) b.value a.value s

theorem wf_clauses (wf : t.Wf) {fields : List (LinkedMember ι α)}
    (names : (fields.map name).Nodup) (members : (fields.map member).Nodup) :
    (clauses t fields).Wf := by
  induction fields with
  | nil =>
      rw [clauses, Clauses.Wf]
      trivial
  | cons f fields ih =>
      rw [List.map_cons, List.nodup_cons] at names members
      rw [clauses, Clauses.Wf, keys_clauses]
      exact ⟨wf, names.1, apart_clauses t members.1, ih names.2 members.2⟩

theorem entry_clauses {fields : List (LinkedMember ι α)} (names : (fields.map name).Nodup)
    {f : LinkedMember ι α} (listed : f ∈ fields) (s : ι → α) :
    (clauses t fields).entry p s f.name =
      if s f.member = f.defaultvalue then none else t.written p (s f.member) := by
  induction fields with
  | nil => exact absurd listed List.not_mem_nil
  | cons g fields ih =>
      rw [List.map_cons, List.nodup_cons] at names
      rw [clauses, Clauses.entry]
      rcases List.mem_cons.mp listed with rfl | later
      · rw [if_pos rfl]
        simp only [Bindable.isDefault_iff]
        rfl
      · have other : f.name ≠ g.name := fun same => names.1 (same ▸ List.mem_map_of_mem later)
        rw [if_neg other, ih names.2 later]

variable {p t}

theorem contains_toJson_iff (wf : t.Wf) {fields : List (LinkedMember ι α)}
    (names : (fields.map name).Nodup) (members : (fields.map member).Nodup)
    {f : LinkedMember ι α} (listed : f ∈ fields) (n : Network ι κ α) :
    (toJson p t fields n).contains f.name = true ↔ ¬ LeftOut t n f := by
  have entry := entry_clauses p t names listed n.value
  rw [← Clauses.lookup_toJson p (wf_clauses t wf names members)] at entry
  have skipped := t.omitted_serialize p wf (n.value f.member)
  rw [KeyMap.contains, toJson, entry, LeftOut, ← skipped, Ty.written]
  split_ifs with default empty <;> simp [*]

theorem deserialize_toJson (wf : t.Wf) (roundTrip : ∀ y x, t.saveLoad p y x = x)
    {fields : List (LinkedMember ι α)} (names : (fields.map name).Nodup)
    (members : (fields.map member).Nodup) {f : LinkedMember ι α} (listed : f ∈ fields)
    {n : Network ι κ α} (present : (toJson p t fields n).contains f.name = true) (y : α) :
    t.deserialize p y (QJsonObject.subscript (toJson p t fields n) f.name) =
      n.value f.member := by
  obtain ⟨changed, full⟩ := not_or.mp ((contains_toJson_iff wf names members listed n).mp present)
  have saved := entry_clauses p t names listed n.value
  have skipped := t.omitted_serialize p wf (n.value f.member)
  rw [← Clauses.lookup_toJson p (wf_clauses t wf names members), if_neg changed, Ty.written,
    if_neg fun empty => full (skipped.mp empty)] at saved
  have back := roundTrip y (n.value f.member)
  rw [Ty.saveLoad, t.serialize_eq_encode] at back
  rw [toJson, QJsonObject.subscript_of_lookup saved, back]

end Clauses

section Cells

variable {p t}

theorem joined_foldl_read (json : QJsonValue) (fields : List (LinkedMember ι α)) (s : Shared ι α) :
    (fields.foldl (read p t json) s).joined = s.joined := by
  induction fields generalizing s with
  | nil => rfl
  | cons f fields ih =>
      rw [List.foldl_cons, ih, read]
      split_ifs <;> rfl

/-- The document has a key for a member that is joined with `x`. -/
def Reaches (json : QJsonValue) (fields : List (LinkedMember ι α)) (s : Shared ι α) (x : ι) :
    Prop :=
  ∃ f ∈ fields, (toObject json).contains f.name = true ∧ s.joined f.member x

variable {w : ι → α} {json : QJsonValue}

/-- Where the keys decode to one value for each group, the groups that have a key get it, and the
others keep theirs. -/
theorem value_foldl_read {fields : List (LinkedMember ι α)}
    (decodes : ∀ f ∈ fields, (toObject json).contains f.name = true → ∀ y,
      t.deserialize p y (QJsonObject.subscript (toObject json) f.name) = w f.member)
    (s : Shared ι α) (agree : ∀ x y, s.joined x y → w x = w y) (x : ι) :
    (Reaches json fields s x → (fields.foldl (read p t json) s).value x = w x) ∧
      (¬ Reaches json fields s x → (fields.foldl (read p t json) s).value x = s.value x) := by
  induction fields generalizing s with
  | nil =>
      refine ⟨?_, fun _ => rfl⟩
      rintro ⟨f, listed, -⟩
      exact absurd listed List.not_mem_nil
  | cons f fields ih =>
      obtain ⟨first, rest⟩ := List.forall_mem_cons.mp decodes
      have same : (read p t json s f).joined = s.joined := joined_foldl_read json [f] s
      obtain ⟨reached, kept⟩ := ih rest (read p t json s f) (by rwa [same])
      have below : Reaches json fields (read p t json s f) x ↔ Reaches json fields s x := by
        unfold Reaches
        rw [same]
      rw [below] at reached kept
      rw [List.foldl_cons]
      constructor
      · rintro ⟨g, listed, present, together⟩
        by_cases later : Reaches json fields s x
        · exact reached later
        · -- the last key for the group of `x` is that of `f`
          rcases List.mem_cons.mp listed with rfl | inRest
          · rw [kept later, read, if_pos present, Shared.value_write_joined together,
              first present, agree _ _ together]
          · exact absurd ⟨g, inRest, present, together⟩ later
      · intro unreached
        have later : ¬ Reaches json fields s x := by
          rintro ⟨g, listed, reaches⟩
          exact unreached ⟨g, List.mem_cons_of_mem f listed, reaches⟩
        rw [kept later, read]
        split_ifs with present
        · apply Shared.value_write_apart
          exact fun together => unreached ⟨f, List.mem_cons_self, present, together⟩
        · rfl

end Cells

section Load

variable [DecidableEq ι] [DecidableEq κ] [DecidableEq α] [Fintype ι] {fuel : ℕ}

/-- A load into linked Bindables returns, and does what it means for the cells. -/
theorem loadJson_shares (enough : Fintype.card ι < fuel) (json : QJsonValue)
    (fields : List (LinkedMember ι α)) {n : Network ι κ α} {s : Shared ι α}
    (shares : Bindable.Shares n s) :
    ∃ n', loadJson p t fuel fields json n = some n' ∧
      Bindable.Shares n' (fields.foldl (read p t json) s) := by
  induction fields generalizing n s with
  | nil => exact ⟨n, rfl, shares⟩
  | cons f fields ih =>
      have step : ∃ m, load p t fuel json n f = some m ∧ Bindable.Shares m (read p t json s f) := by
        rw [load, read]
        split_ifs
        · obtain ⟨m, returned, sharesM, -⟩ := Bindable.load_shares enough shares f.member _
          exact ⟨m, returned, sharesM⟩
        · exact ⟨n, rfl, shares⟩
      obtain ⟨m, returned, sharesM⟩ := step
      obtain ⟨n', rest, sharesN'⟩ := ih sharesM
      refine ⟨n', ?_, sharesN'⟩
      rw [loadJson, List.foldlM_cons, returned]
      exact rest

theorem loadJson_unlinked (enough : Fintype.card ι < fuel) (json : QJsonValue)
    (fields : List (LinkedMember ι α)) {n : Network ι κ α}
    (unlinked : ∀ x y, ¬ Bindable.Linked n x y) :
    ∃ n', loadJson p t fuel fields json n = some n' ∧
      n'.value = (clauses t fields).loadJson p json n.value := by
  obtain ⟨n', returned, shares⟩ := loadJson_shares (p := p) (t := t) enough json fields
    (Bindable.Shares.start unlinked)
  refine ⟨n', returned, ?_⟩
  have alone : ∀ s : Shared ι α, s.joined = ⊥ →
      (fields.foldl (read p t json) s).value = (clauses t fields).loadJson p json s.value := by
    clear returned shares
    induction fields with
    | nil =>
        intro s _
        rw [clauses, Clauses.loadJson]
        rfl
    | cons f fields ih =>
        intro s single
        have still : (read p t json s f).joined = ⊥ := (joined_foldl_read json [f] s).trans single
        rw [List.foldl_cons, ih _ still, clauses, Clauses.loadJson, fromJsonField, read]
        split_ifs
        · congr 1
          funext x
          by_cases here : x = f.member
          · subst here
            rw [Shared.value_write_joined (s.joined.refl' f.member)]
            exact (Function.update_self f.member _ s.value).symm
          · have apart : ¬ s.joined f.member x := by
              rw [single]
              exact fun same => here (Eq.symm same)
            rw [Shared.value_write_apart apart]
            exact (Function.update_of_ne here _ s.value).symm
        · rfl
  rw [shares.value, alone _ rfl]
  rfl

theorem exists_shares_of_run (enough : Fintype.card ι < fuel) {n₀ n : Network ι κ α}
    (unlinked : ∀ x y, ¬ Bindable.Linked n₀ x y) {ops : List (Bindable.LinkOp ι κ α)}
    (ran : run (Bindable.LinkOp.step fuel) n₀ ops = some n) :
    ∃ s, Bindable.Shares n s ∧
      ∀ x y, s.joined x y ↔ Relation.EqvGen (Bindable.LinkedBy ops) x y := by
  have steps : ∀ (n : Network ι κ α) s op, Bindable.Shares n s →
      ∃ n', Bindable.LinkOp.step fuel n op = some n' ∧
        Bindable.Shares n' (Bindable.LinkOp.meaning s op) := by
    intro n s op shares
    obtain ⟨n', returned, after, -⟩ := op.step_shares enough shares
    exact ⟨n', returned, after⟩
  obtain ⟨n', ran', shares⟩ := run_simulates steps (Bindable.Shares.start unlinked) ops
  cases ran.symm.trans ran'
  refine ⟨_, shares, fun x y => ?_⟩
  rw [Bindable.joined_foldl_meaning]
  show (⊥ ⊔ Relation.EqvGen.setoid (Bindable.LinkedBy ops)) x y ↔ _
  rw [bot_sup_eq]
  rfl

/-- Saving a struct with linked members, and loading the document into another one whose members
are linked alike: the members get the saved values back exactly when each member that has no saved
member linked to it holds its saved value already. -/
theorem restored_iff (enough : Fintype.card ι < fuel) (wf : t.Wf)
    (roundTrip : ∀ y x, t.saveLoad p y x = x) {fields : List (LinkedMember ι α)}
    (names : (fields.map name).Nodup) (members : (fields.map member).Nodup)
    {n₀ m₀ n m : Network ι κ α} (unlinked : ∀ x y, ¬ Bindable.Linked n₀ x y)
    (unlinked' : ∀ x y, ¬ Bindable.Linked m₀ x y) {ops ops' : List (Bindable.LinkOp ι κ α)}
    (alike : Relation.EqvGen (Bindable.LinkedBy ops) = Relation.EqvGen (Bindable.LinkedBy ops'))
    (ran : run (Bindable.LinkOp.step fuel) n₀ ops = some n)
    (ran' : run (Bindable.LinkOp.step fuel) m₀ ops' = some m) :
    ∃ m', loadJson p t fuel fields (some (.object (toJson p t fields n))) m = some m' ∧
      ((∀ f ∈ fields, m'.value f.member = n.value f.member) ↔
        ∀ f ∈ fields,
          (∀ g ∈ fields, Relation.EqvGen (Bindable.LinkedBy ops) g.member f.member →
            LeftOut t n g) →
          m.value f.member = n.value f.member) := by
  obtain ⟨s, sharesN, groups⟩ := exists_shares_of_run enough unlinked ran
  obtain ⟨s', sharesM, groups'⟩ := exists_shares_of_run enough unlinked' ran'
  obtain ⟨m', returned, sharesM'⟩ := loadJson_shares (p := p) (t := t) enough
    (some (.object (toJson p t fields n))) fields sharesM
  refine ⟨m', returned, ?_⟩
  have agree : ∀ x y, s'.joined x y → n.value x = n.value y := by
    intro x y together
    have inN : s.joined x y := by
      rw [groups, alike, ← groups']
      exact together
    exact sharesN.agree inN
  have decodes : ∀ f ∈ fields,
      (toObject (some (.object (toJson p t fields n)))).contains f.name = true → ∀ y,
        t.deserialize p y
          (QJsonObject.subscript (toObject (some (.object (toJson p t fields n)))) f.name) =
            n.value f.member := by
    intro f listed present y
    rw [toObject_object] at present ⊢
    exact deserialize_toJson wf roundTrip names members listed present y
  have loaded := value_foldl_read decodes s' agree
  have unreached : ∀ f : LinkedMember ι α,
      ¬ Reaches (some (.object (toJson p t fields n))) fields s' f.member ↔
        ∀ g ∈ fields, Relation.EqvGen (Bindable.LinkedBy ops) g.member f.member →
          LeftOut t n g := by
    intro f
    unfold Reaches
    rw [not_exists]
    refine forall_congr' fun g => ?_
    rw [not_and, not_and]
    refine forall_congr' fun listed => ?_
    rw [toObject_object, contains_toJson_iff wf names members listed, groups', ← alike]
    exact ⟨fun apart linked => not_not.mp fun kept => apart kept linked,
      fun leftOut kept linked => kept (leftOut linked)⟩
  constructor
  · intro restored f listed alone
    have kept := (loaded f.member).2 ((unreached f).mpr alone)
    rw [sharesM.value, ← kept, ← sharesM'.value, restored f listed]
  · intro held f listed
    obtain ⟨reached, kept⟩ := loaded f.member
    rw [sharesM'.value]
    by_cases reaches : Reaches (some (.object (toJson p t fields n))) fields s' f.member
    · exact reached reaches
    · rw [kept reaches, ← sharesM.value, held f listed ((unreached f).mp reaches)]

end Load

/-- Two members with different defaults, linked, and set to the default of the second one. -/
theorem restored_iff_otherDefault :
    let fields : List (LinkedMember Bool Int32) := [⟨"a", false, 1⟩, ⟨"b", true, 2⟩]
    let start : Network Bool Unit Int32 :=
      ⟨fun b => if b then 2 else 1, fun _ => [], [], fun _ _ => none⟩
    let linked : List (Bindable.LinkOp Bool Unit Int32) := [.link false true]
    ∃ n m m', run (Bindable.LinkOp.step 3) start (linked ++ [.assign false 2]) = some n ∧
      run (Bindable.LinkOp.step 3) start linked = some m ∧
      loadJson .reference (.leaf .int) 3 fields
        (some (.object (toJson .reference (.leaf .int) fields n))) m = some m' ∧
      m'.value true = n.value true := by
  intro fields start linked
  have ran : run (Bindable.LinkOp.step 3) start (linked ++ [.assign false 2]) = some _ := rfl
  have ran' : run (Bindable.LinkOp.step 3) start linked = some _ := rfl
  have alike : Bindable.LinkedBy (linked ++ [.assign false 2]) = Bindable.LinkedBy linked := by
    funext x y
    simp [Bindable.LinkedBy]
  have unlinked : ∀ x y, ¬ Bindable.Linked start x y := by
    intro x y
    simp [Bindable.Linked, start]
  have together : Relation.EqvGen (Bindable.LinkedBy (linked ++ [.assign false 2])) false true :=
    Relation.EqvGen.rel _ _ List.mem_cons_self
  have wf : (Ty.leaf .int).Wf := by
    rw [Ty.Wf]
    trivial
  have names : (fields.map name).Nodup := by decide
  have members : (fields.map member).Nodup := by decide
  have enough : Fintype.card Bool < 3 := by decide
  obtain ⟨m', loaded, restored⟩ := restored_iff .reference (.leaf .int) enough wf
    (fun y x => Ty.saveLoad_leaf .reference .int y trivial) names members unlinked unlinked
    (congrArg Relation.EqvGen alike) ran ran'
  refine ⟨_, _, m', ran, ran', loaded, ?_⟩
  refine restored.mpr ?_ ⟨"b", true, 2⟩ (List.mem_cons_of_mem _ List.mem_cons_self)
  intro f listed alone
  have joined :
      Relation.EqvGen (Bindable.LinkedBy (linked ++ [.assign false 2])) false f.member := by
    rcases List.mem_pair.mp listed with rfl | rfl
    · exact Relation.EqvGen.refl false
    · exact together
  rcases alone ⟨"a", false, 1⟩ List.mem_cons_self joined with default | empty
  · exact absurd default (by decide)
  · rw [Ty.Omitted] at empty
    exact empty.elim

end LinkedMember

end QvPlugin.Utils
