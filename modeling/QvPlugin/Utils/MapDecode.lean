import QvPlugin.Common.WellFormed
import QvPlugin.Lib.Carry
import QvPlugin.Utils.Leaves

/-!
`Deserialize` of a `QMap`. The loop decodes every entry into one `valueVal`, so an entry keeps
what the entry before it left in the leaf fields that it does not have itself.
-/

set_option autoImplicit false
set_option relaxedAutoImplicit false

namespace QvPlugin.Utils

open Lib Qt Common

variable (p : Platform) {α : Type}

/-- Every leaf field that `earlier` has and `later` lacks has its fresh value in `earlier`. -/
def Ty.Covers (t : Ty α) (fresh : α) (earlier later : Json) : Prop :=
  ∀ f ∈ t.leaves, valueUnder (some later) f.path = none →
    ∀ j, valueUnder (some earlier) f.path = some j →
      f.ty.deserialize p (f.member.get fresh) (some j) = f.member.get fresh

/-- In the order in which `keys()` lists them, each entry covers the one before it. -/
def Ty.EachCovers (t : Ty α) (fresh : α) (j : QJsonObject) : Prop :=
  (p.entries j).IsChain fun earlier later => t.Covers p fresh earlier.2 later.2

/-- Decoding `later` over `earlier` gives what it gives afresh exactly when it covers it. -/
theorem Ty.decoder_eq_iff {t : Ty α} (own : t.OwnStorage) (fresh : α) (earlier later : Json) :
    t.decoder p later (t.decoder p earlier fresh) = t.decoder p later fresh ↔
      t.Covers p fresh earlier later := by
  have load (j : Json) (x : α) : t.decoder p j x =
      modifyAll LeafField.member (LeafField.load p (some j)) t.leaves x :=
    t.reload_eq_modifyAll p x (some j)
  rw [load, load, load, modifyAll_modifyAll own, modifyAll_eq_iff own]
  unfold Ty.Covers
  apply forall₂_congr
  intro f _
  cases here : valueUnder (some later) f.path with
  | some j =>
      have same := f.load_of_present p here (f.load p (some earlier) (f.member.get fresh))
        (f.member.get fresh)
      exact ⟨fun _ absent => (nomatch absent), fun _ => same⟩
  | none =>
      rw [f.load_of_absent p here, f.load_of_absent p here]
      cases before : valueUnder (some earlier) f.path with
      | none =>
          rw [f.load_of_absent p before]
          exact ⟨fun _ _ j found => (nomatch found), fun _ => rfl⟩
      | some j =>
          have read : f.load p (some earlier) (f.member.get fresh) =
              f.ty.deserialize p (f.member.get fresh) (some j) := by
            unfold LeafField.load Ty.reload
            rw [before, Option.elim_some]
          rw [read]
          constructor
          · intro kept _ j' found
            rw [← Option.some.inj found]
            exact kept
          · intro covers
            exact covers rfl j rfl

/-- Every key holds what its own value decodes to, when each entry covers the one before. -/
theorem Ty.lookup_deserialize_map_iff {t : Ty α} (own : t.OwnStorage) (fresh : α)
    (target : KeyMap QString α) (j : QJsonObject) :
    (∀ k, ((Ty.map t fresh).deserialize p target (some (.object j))).lookup k =
        (j.lookup k).map fun d => t.deserialize p fresh (some d)) ↔
      t.EachCovers p fresh j := by
  have listed : ((p.entries (j.mapValues (t.decoder p))).map Prod.fst).Nodup := by
    rw [p.keys_entries]
    exact p.nodup_keys _
  have loop := lookup_carry_iff fresh listed
  rw [p.entries_mapValues, List.isChain_map, ← p.entries_mapValues] at loop
  have covers : t.EachCovers p fresh j ↔
      (p.entries j).IsChain fun e e' =>
        Forgets fresh (e.1, t.decoder p e.2) (e'.1, t.decoder p e'.2) := by
    unfold Ty.EachCovers
    apply List.IsChain.iff
    intro e e'
    exact (Ty.decoder_eq_iff p own fresh e.2 e'.2).symm
  rw [covers, ← loop]
  apply forall_congr'
  intro k
  rw [Ty.deserialize_map, toObject_object, p.lookup_entries, KeyMap.lookup_mapValues,
    Option.map_map]
  rfl

/-- Decoding a map treats its entries independently, and undoes the encoding of the map, exactly
when no entry lacks a leaf field that the entry before it, as `keys()` lists them, sets to
something else than fresh. -/
theorem map_entries_independent_iff {t : Ty α} (own : t.OwnStorage) (fresh : α)
    (target : KeyMap QString α) :
    (∀ j : QJsonObject,
      (∀ k, ((Ty.map t fresh).deserialize p target (some (.object j))).lookup k =
          (j.lookup k).map fun d => t.deserialize p fresh (some d)) ↔ t.EachCovers p fresh j) ∧
    ((∀ x, t.saveLoad p fresh x = x) → ∀ m : KeyMap QString α,
      (Ty.map t fresh).deserialize p target ((Ty.map t fresh).serialize p m) = m ↔
        t.EachCovers p fresh (m.mapValues (t.encode p))) := by
  refine ⟨Ty.lookup_deserialize_map_iff p own fresh target, ?_⟩
  intro roundTrip m
  have expected (k : QString) : m.lookup k =
      ((m.mapValues (t.encode p)).lookup k).map fun d => t.deserialize p fresh (some d) := by
    have back : (fun x => t.deserialize p fresh (some (t.encode p x))) = id := by
      funext x
      rw [← t.serialize_eq_encode]
      exact roundTrip x
    rw [KeyMap.lookup_mapValues, Option.map_map]
    show m.lookup k = (m.lookup k).map fun x => t.deserialize p fresh (some (t.encode p x))
    rw [back, Option.map_id, id_eq]
  rw [Ty.serialize_map, ← Ty.lookup_deserialize_map_iff p own fresh target]
  constructor
  · intro restored k
    rw [restored, expected]
  · intro independent
    ext1 k
    rw [independent, ← expected]

def taggedEntries (second : BaseTaggedObject) : KeyMap QString BaseTaggedObject :=
  KeyMap.set (KeyMap.set ∅ "a" { options := KeyMap.set ∅ "x" (.number 1) }) "b" second

private theorem tagged_roundTrip (x : BaseTaggedObject) :
    (Ty.struct BaseTaggedObject.clauses).saveLoad .reference {} x = x := by
  have blank : BaseTaggedObject.clauses.Blank {} := by
    simp [BaseTaggedObject.clauses, Clauses.Blank, Ty.Blank, Leaf.Blank]
  have restores := Clauses.restores_struct BaseTaggedObject.clauses_regular.2.1
    BaseTaggedObject.clauses_regular.2.2 BaseTaggedObject.clauses_exact blank
  rw [Ty.saveLoad_struct]
  exact restores.loadJson_eq .reference x

/-- A second entry with options of its own loses nothing. -/
theorem tagged_entries_restored :
    (Ty.map (.struct BaseTaggedObject.clauses) {}).deserialize .reference ∅
        ((Ty.map (.struct BaseTaggedObject.clauses) {}).serialize .reference
          (taggedEntries { options := KeyMap.set ∅ "y" .null })) =
      taggedEntries { options := KeyMap.set ∅ "y" .null } := by
  have separate : (Ty.struct BaseTaggedObject.clauses).Separate := by
    rw [Ty.Separate]
    exact BaseTaggedObject.clauses_regular.2.1.separate
  have restored_iff := (map_entries_independent_iff .reference separate.ownStorage {} ∅).2
    tagged_roundTrip (taggedEntries { options := KeyMap.set ∅ "y" .null })
  refine restored_iff.mpr ?_
  have entries : Platform.reference.entries
      ((taggedEntries { options := KeyMap.set ∅ "y" .null }).mapValues
        ((Ty.struct BaseTaggedObject.clauses).encode .reference)) =
        [("a", .object (KeyMap.set (KeyMap.set ∅ "name" (.string "")) "options"
          (.object (KeyMap.set ∅ "x" (.number 1))))),
         ("b", .object (KeyMap.set (KeyMap.set ∅ "name" (.string "")) "options"
          (.object (KeyMap.set ∅ "y" .null))))] := rfl
  rw [Ty.EachCovers, entries, List.isChain_pair]
  intro f member absent
  have fields : f.path = ["name"] ∨ f.path = ["options"] := by
    simp only [BaseTaggedObject.clauses, Ty.leaves, Clauses.leaves, List.map_cons, List.map_nil,
      List.cons_append, List.nil_append, List.mem_cons, List.not_mem_nil, or_false] at member
    rcases member with rfl | rfl
    · exact Or.inl rfl
    · exact Or.inr rfl
  rcases fields with name | options
  · rw [name] at absent
    exact absurd absent (by decide)
  · rw [options] at absent
    exact absurd absent (by decide)

/-- A second entry without options is decoded with those of the first. -/
theorem options_carried_over :
    (∀ x, (Ty.struct BaseTaggedObject.clauses).saveLoad .reference {} x = x) ∧
      (Ty.map (.struct BaseTaggedObject.clauses) {}).deserialize .reference ∅
          ((Ty.map (.struct BaseTaggedObject.clauses) {}).serialize .reference
            (taggedEntries {})) ≠ taggedEntries {} := by
  refine ⟨tagged_roundTrip, ?_⟩
  intro restored
  have carried : ((Ty.map (.struct BaseTaggedObject.clauses) {}).deserialize .reference ∅
      ((Ty.map (.struct BaseTaggedObject.clauses) {}).serialize .reference
        (taggedEntries {}))).lookup "b" =
          some { options := KeyMap.set ∅ "x" (.number 1) } := rfl
  have stored : (taggedEntries {}).lookup "b" = some {} := rfl
  rw [restored, stored] at carried
  have options := congrArg (Option.map BaseTaggedObject.options) carried
  have differ : (∅ : QJsonObject) ≠ KeyMap.set ∅ "x" (.number 1) := by decide
  exact differ (Option.some.inj options)

end QvPlugin.Utils
