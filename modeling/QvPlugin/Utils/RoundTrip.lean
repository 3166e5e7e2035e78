import QvPlugin.Common.TimestampCodec
import QvPlugin.Lib.Periodic
import QvPlugin.Utils.LoadJson
import QvPlugin.Utils.ToJson

/-!
When `loadJson` undoes `toJson`. A member that `toJson` leaves out is not read back, so it
comes back only if the target already holds it. `Restorable` says that this is the case.
-/

set_option autoImplicit false
set_option relaxedAutoImplicit false

namespace QvPlugin.Utils

open Lib Qt Common

def Leaf.Carried : {α : Type} → Leaf α → α → Prop
  | _, .ulonglong, x => x.toNat < 2 ^ 63
  | _, .timePoint, t => t.truncated = t
  | _, _, _ => True

mutual

/-- What a target holding `y` needs to become `x` by loading it: a list or a set is rebuilt
from fresh elements, and a map from the value of the key before, whichever that is. -/
def Ty.Restorable : {α : Type} → Ty α → α → α → Prop
  | _, .leaf k, _, x => k.Carried x
  | _, .list t fresh, _, xs => ∀ x ∈ xs, t.Restorable fresh x
  | _, @Ty.set _ _ t fresh, _, s => ∀ x ∈ s, t.Restorable fresh x
  | _, .map t fresh, _, m =>
      ∀ x ∈ m.entries.map Prod.snd, ∀ y ∈ fresh :: m.entries.map Prod.snd, t.Restorable y x
  | _, .struct c, y, x => c.Restorable y x

def Clauses.Restorable : {S : Type} → Clauses S → S → S → Prop
  | _, .nil, _, _ => True
  | _, .F _ member t rest, y, x =>
      ((t.Omitted (member.get x) → t.Agree (member.get y) (member.get x)) ∧
        (¬t.Omitted (member.get x) → t.Restorable (member.get y) (member.get x))) ∧
      rest.Restorable y x
  | _, @Clauses.P _ _ _ _ _ member t rest, y, x =>
      (((member.get x).isDefault = true ∨ t.Omitted (member.get x).value →
          t.Agree (member.get y).value (member.get x).value) ∧
        (¬((member.get x).isDefault = true ∨ t.Omitted (member.get x).value) →
          t.Restorable (member.get y).value (member.get x).value)) ∧
      rest.Restorable y x
  | _, .B base clauses rest, y, x => clauses.Restorable (base.get y) (base.get x) ∧ rest.Restorable y x

end

/-- The types that `loadJson` reads back whatever their value: no counter, number or time. -/
def Leaf.Plain : {α : Type} → Leaf α → Prop
  | _, .ulonglong | _, .float | _, .timePoint => False
  | _, _ => True

mutual

/-- The field types are `bool`, `int`, `QString`, enums, ids, raw objects, `QList`, `QSet`,
nested structs, and `Bindable` of these. -/
def Ty.Plain : {α : Type} → Ty α → Prop
  | _, .leaf k => k.Plain
  | _, .list t _ => t.Plain
  | _, @Ty.set _ _ t _ => t.Plain
  | _, .map _ _ => False
  | _, .struct c => c.Plain

def Clauses.Plain : {S : Type} → Clauses S → Prop
  | _, .nil => True
  | _, .F _ _ t rest => t.Plain ∧ rest.Plain
  | _, @Clauses.P _ _ _ _ _ _ t rest => t.Plain ∧ rest.Plain
  | _, .B _ clauses rest => clauses.Plain ∧ rest.Plain

end

theorem Leaf.carried_of_plain {α : Type} {k : Leaf α} (plain : k.Plain) (x : α) : k.Carried x := by
  cases k with
  | ulonglong => exact False.elim plain
  | timePoint => exact False.elim plain
  | _ => trivial

section Restorable

mutual

theorem Ty.restorable_congr : {α : Type} → (t : Ty α) → {y y' x : α} → t.Agree y y' →
    t.Restorable y x → t.Restorable y' x
  | _, .leaf _, _, _, _, _, restorable => by
      rw [Ty.Restorable] at restorable ⊢
      exact restorable
  | _, .list t _, _, _, _, _, restorable => by
      rw [Ty.Restorable] at restorable ⊢
      exact restorable
  | _, @Ty.set _ _ t _, _, _, _, _, restorable => by
      rw [Ty.Restorable] at restorable ⊢
      exact restorable
  | _, .map t _, _, _, _, _, restorable => by
      rw [Ty.Restorable] at restorable ⊢
      exact restorable
  | _, .struct c, _, _, _, same, restorable => by
      rw [Ty.Agree] at same
      rw [Ty.Restorable] at restorable ⊢
      exact c.restorable_congr same restorable

theorem Clauses.restorable_congr : {S : Type} → (c : Clauses S) → {y y' x : S} → c.Agree y y' →
    c.Restorable y x → c.Restorable y' x
  | _, .nil, _, _, _, _, _ => by rw [Clauses.Restorable]; trivial
  | _, .F _ member t rest, y, y', x, same, restorable => by
      rw [Clauses.Agree] at same
      rw [Clauses.Restorable] at restorable ⊢
      obtain ⟨⟨skipped, read⟩, others⟩ := restorable
      refine ⟨⟨fun h => ?_, fun h => ?_⟩, rest.restorable_congr same.2 others⟩
      · exact t.agree_trans (t.agree_symm same.1) (skipped h)
      · exact t.restorable_congr same.1 (read h)
  | _, @Clauses.P _ _ _ _ _ member t rest, y, y', x, same, restorable => by
      rw [Clauses.Agree] at same
      rw [Clauses.Restorable] at restorable ⊢
      obtain ⟨⟨skipped, read⟩, others⟩ := restorable
      refine ⟨⟨fun h => ?_, fun h => ?_⟩, rest.restorable_congr same.2 others⟩
      · exact t.agree_trans (t.agree_symm same.1) (skipped h)
      · exact t.restorable_congr same.1 (read h)
  | _, .B base clauses rest, y, y', x, same, restorable => by
      rw [Clauses.Agree] at same
      rw [Clauses.Restorable] at restorable ⊢
      exact ⟨clauses.restorable_congr same.1 restorable.1, rest.restorable_congr same.2 restorable.2⟩

end

end Restorable

variable (p : Platform)

def Ty.saveLoad {α : Type} (t : Ty α) (y x : α) : α := t.deserialize p y (t.serialize p x)

/-- What `F` leaves in a member: a value that is not written is not read. -/
def Ty.saveLoadF {α : Type} (t : Ty α) (y x : α) : α :=
  if omitted (t.serialize p x) then y else t.saveLoad p y x

def Ty.saveLoadP {α : Type} [DecidableEq α] (t : Ty α) (defaultvalue y x : α) : α :=
  if x = defaultvalue then y else t.saveLoadF p y x

/-- `z` is what `y` becomes when `x` is saved and loaded into it, member by member. -/
def Clauses.Reloaded : {S : Type} → Clauses S → S → S → S → Prop
  | _, .nil, _, _, _ => True
  | _, .F _ member t rest, y, x, z =>
      member.get z = t.saveLoadF p (member.get y) (member.get x) ∧ rest.Reloaded y x z
  | _, @Clauses.P _ _ _ _ defaultvalue member t rest, y, x, z =>
      (member.get z).value = t.saveLoadP p defaultvalue (member.get y).value (member.get x).value ∧
        rest.Reloaded y x z
  | _, .B base clauses rest, y, x, z =>
      base.get z =
          clauses.loadJson p (some (.object (clauses.toJson p (base.get x)))) (base.get y) ∧
        rest.Reloaded y x z

section SaveLoad

theorem Leaf.deserialize_serialize {α : Type} (k : Leaf α) {x : α} (carried : k.Carried x) :
    k.deserialize p (k.serialize x) = x := by
  cases k with
  | bool => rfl
  | int => exact toInt_number x
  | ulonglong => exact toULongLong_fromULongLong p carried
  | float => rfl
  | string => rfl
  | timePoint =>
      rw [TimePoint.deserialize_serialize]
      exact carried
  | enum repr =>
      rw [Leaf.serialize, Leaf.deserialize, toInt_number, Equiv.symm_apply_apply]
  | id tag => rfl
  | object => rfl
  | safeJson tag => rfl

theorem Ty.saveLoad_leaf {α : Type} (k : Leaf α) (y : α) {x : α} (carried : k.Carried x) :
    (Ty.leaf k).saveLoad p y x = x := by
  rw [Ty.saveLoad, Ty.serialize, Ty.deserialize]
  exact k.deserialize_serialize p carried

theorem Ty.saveLoad_list {α : Type} (t : Ty α) (fresh : α) (ys xs : List α) :
    (Ty.list t fresh).saveLoad p ys xs = xs.map (t.saveLoad p fresh) := by
  rw [Ty.saveLoad, Ty.serialize_list, Ty.deserialize_list, toArray_array, List.map_map]
  rfl

theorem Ty.saveLoad_set {α : Type} [DecidableEq α] (t : Ty α) (fresh : α) (s' s : Finset α) :
    (Ty.set t fresh).saveLoad p s' s = s.image (t.saveLoad p fresh) := by
  rw [Ty.saveLoad, Ty.serialize_set, Ty.deserialize_set, toArray_array, List.map_map]
  ext x
  rw [List.mem_toFinset, List.mem_map, Finset.mem_image]
  constructor
  · intro ⟨v, hv, image⟩
    exact ⟨v, (p.mem_setOrder s v).mp hv, image⟩
  · intro ⟨v, hv, image⟩
    exact ⟨v, (p.mem_setOrder s v).mpr hv, image⟩

theorem Ty.saveLoad_struct {S : Type} (c : Clauses S) (y x : S) :
    (Ty.struct c).saveLoad p y x = c.loadJson p (some (.object (c.toJson p x))) y := by
  rw [Ty.saveLoad, Ty.serialize_struct, Ty.deserialize]

variable {p}

theorem Ty.saveLoadF_of_omitted {α : Type} {t : Ty α} (wf : t.Wf) (y : α) {x : α}
    (h : t.Omitted x) : t.saveLoadF p y x = y := by
  have skipped : omitted (t.serialize p x) = true := (t.omitted_serialize p wf x).mpr h
  rw [Ty.saveLoadF, if_pos skipped]

theorem Ty.saveLoadF_of_not_omitted {α : Type} {t : Ty α} (wf : t.Wf) (y : α) {x : α}
    (h : ¬t.Omitted x) : t.saveLoadF p y x = t.saveLoad p y x := by
  have written : ¬omitted (t.serialize p x) = true := fun skipped =>
    h ((t.omitted_serialize p wf x).mp skipped)
  rw [Ty.saveLoadF, if_neg written]

private theorem reload_written {α : Type} (t : Ty α) (y x : α) :
    t.reload p y (t.written p x) = t.saveLoadF p y x := by
  rw [Ty.reload, Ty.written, Ty.saveLoadF, Ty.saveLoad, t.serialize_eq_encode]
  split_ifs <;> rfl

theorem Clauses.reloaded_of_loaded : {S : Type} → (c : Clauses S) → c.Wf →
    {json : QJsonObject} → {y z x : S} → c.Loaded p json y z → c.Written p x json →
    c.Reloaded p y x z
  | _, .nil, _, _, _, _, _, _, _ => by rw [Clauses.Reloaded]; trivial
  | _, .F name member t rest, wf, json, y, z, x, loaded, written => by
      rw [Clauses.Wf] at wf
      obtain ⟨wfT, fresh, -, wfRest⟩ := wf
      rw [Clauses.Loaded] at loaded
      obtain ⟨own, others⟩ := written.of_F fresh
      rw [Clauses.Reloaded, loaded.1, own, reload_written]
      exact ⟨rfl, rest.reloaded_of_loaded wfRest loaded.2 others⟩
  | _, @Clauses.P _ _ _ name _ member t rest, wf, json, y, z, x, loaded, written => by
      rw [Clauses.Wf] at wf
      obtain ⟨wfT, fresh, -, wfRest⟩ := wf
      rw [Clauses.Loaded] at loaded
      obtain ⟨own, others⟩ := written.of_P fresh
      rw [Clauses.Reloaded, loaded.1, own]
      refine ⟨?_, rest.reloaded_of_loaded wfRest loaded.2 others⟩
      have default := (member.get x).isDefault_iff
      rw [Ty.saveLoadP, ← reload_written]
      by_cases held : (member.get x).isDefault = true
      · rw [if_pos held, if_pos (default.mp held), Ty.reload, Option.elim_none]
      · rw [if_neg held, if_neg (fun same => held (default.mpr same))]
  | _, .B base clauses rest, wf, json, y, z, x, loaded, written => by
      rw [Clauses.Wf] at wf
      obtain ⟨wfBase, separate, -, wfRest⟩ := wf
      rw [Clauses.Loaded] at loaded
      obtain ⟨inner, others⟩ := written.of_B separate
      rw [Clauses.Reloaded, loaded.1]
      refine ⟨?_, rest.reloaded_of_loaded wfRest loaded.2 others⟩
      apply clauses.loadJson_congr
      intro k hk
      rw [toObject_object, toObject_object, inner k hk, clauses.lookup_toJson p wfBase]

variable (p)

theorem Clauses.reloaded {S : Type} {c : Clauses S} (wf : c.Wf) (y x : S) :
    c.Reloaded p y x (c.loadJson p (some (.object (c.toJson p x))) y) :=
  c.reloaded_of_loaded wf (c.loaded_loadJson p wf _ y) (Clauses.written_toJson p wf x)

end SaveLoad

section Agree

/-- The loop over a map: the value of each key is loaded over the value of the key before. -/
private theorem agree_carry {α : Type} (t : Ty α)
    (roundTrip : ∀ {y x : α}, t.Restorable y x → t.Agree (t.saveLoad p y x) x)
    {values : List α} (restorable : ∀ x ∈ values, ∀ y ∈ values, t.Restorable y x)
    (entries : List (QString × α)) (own : ∀ e ∈ entries, e.2 ∈ values)
    {valueVal : α} (first : ∀ e ∈ entries.head?, t.Restorable valueVal e.2)
    {m m' : KeyMap QString α} (same : ∀ k, Option.Rel t.Agree (m.lookup k) (m'.lookup k))
    (k : QString) :
    Option.Rel t.Agree
      ((carry (entries.map fun e => (e.1, t.decoder p (t.encode p e.2))) (valueVal, m)).2.lookup k)
      ((entries.foldl (fun m e => m.set e.1 e.2) m').lookup k) := by
  induction entries generalizing valueVal m m' with
  | nil => exact same k
  | cons e entries ih =>
      have reached : t.Agree (t.decoder p (t.encode p e.2) valueVal) e.2 := by
        have loaded := roundTrip (first e rfl)
        rwa [Ty.saveLoad, t.serialize_eq_encode] at loaded
      rw [List.map_cons, carry_cons, List.foldl_cons]
      refine ih (fun e' later => own e' (List.mem_cons_of_mem e later)) ?_ ?_
      · intro e' next
        have later : e' ∈ entries := List.mem_of_mem_head? next
        have kept : t.Restorable e.2 e'.2 := restorable _ (own e' (List.mem_cons_of_mem e later)) _
          (own e List.mem_cons_self)
        exact t.restorable_congr (t.agree_symm reached) kept
      · intro k'
        rw [KeyMap.lookup_set, KeyMap.lookup_set]
        split_ifs
        · exact .some reached
        · exact same k'

mutual

/-- Loading the saved value into a restorable target gives the value back. -/
theorem Ty.agree_saveLoad : {α : Type} → (t : Ty α) → t.Wf → {y x : α} →
    t.Restorable y x → t.Agree (t.saveLoad p y x) x
  | _, .leaf k, _, y, x, restorable => by
      rw [Ty.Restorable] at restorable
      rw [Ty.Agree, Ty.saveLoad_leaf p k y restorable]
  | _, .list t fresh, wf, _, xs, restorable => by
      rw [Ty.Wf] at wf
      rw [Ty.Restorable] at restorable
      rw [Ty.Agree, Ty.saveLoad_list, List.forall₂_map_left_iff, List.forall₂_same]
      intro x hx
      exact t.agree_saveLoad wf.1 (restorable x hx)
  | _, @Ty.set _ _ t fresh, wf, _, s, restorable => by
      rw [Ty.Wf] at wf
      rw [Ty.Restorable] at restorable
      have fixed : ∀ x ∈ s, t.saveLoad p fresh x = id x := fun x hx =>
        t.eq_of_agree wf.2.2 (t.agree_saveLoad wf.1 (restorable x hx))
      rw [Ty.Agree, Ty.saveLoad_set, Finset.image_congr fixed, Finset.image_id]
  | _, .map t fresh, wf, _, m, restorable => by
      rw [Ty.Wf] at wf
      rw [Ty.Restorable] at restorable
      rw [Ty.Agree, Ty.saveLoad, Ty.serialize_map, Ty.deserialize_map, toObject_object,
        p.entries_mapValues, p.entries_mapValues, List.map_map]
      intro k
      have stored : ∀ e ∈ p.entries m, e.2 ∈ m.entries.map Prod.snd := fun e listed =>
        List.mem_map_of_mem (p.mem_entries.mp listed)
      have loop := agree_carry p t (t.agree_saveLoad wf.1)
        (fun x hx y hy => restorable x hx y (List.mem_cons_of_mem fresh hy)) (p.entries m) stored
        (fun e first => restorable e.2 (stored e (List.mem_of_mem_head? first)) fresh
          List.mem_cons_self)
        (fun k => by rw [KeyMap.lookup_empty]; exact Option.Rel.none) k
      rwa [p.foldl_set_entries] at loop
  | _, .struct c, wf, y, x, restorable => by
      rw [Ty.Wf] at wf
      rw [Ty.Restorable] at restorable
      rw [Ty.Agree, Ty.saveLoad_struct]
      exact c.agree_of_reloaded wf (Clauses.reloaded p wf y x) restorable

theorem Clauses.agree_of_reloaded : {S : Type} → (c : Clauses S) → c.Wf → {y x z : S} →
    c.Reloaded p y x z → c.Restorable y x → c.Agree z x
  | _, .nil, _, _, _, _, _, _ => by rw [Clauses.Agree]; trivial
  | _, .F name member t rest, wf, y, x, z, reloaded, restorable => by
      rw [Clauses.Wf] at wf
      obtain ⟨wfT, -, -, wfRest⟩ := wf
      rw [Clauses.Reloaded] at reloaded
      rw [Clauses.Restorable] at restorable
      obtain ⟨⟨skipped, read⟩, restorableRest⟩ := restorable
      rw [Clauses.Agree, reloaded.1]
      refine ⟨?_, rest.agree_of_reloaded wfRest reloaded.2 restorableRest⟩
      by_cases h : t.Omitted (member.get x)
      · rw [Ty.saveLoadF_of_omitted wfT _ h]
        exact skipped h
      · rw [Ty.saveLoadF_of_not_omitted wfT _ h]
        exact t.agree_saveLoad wfT (read h)
  | _, @Clauses.P _ _ _ name _ member t rest, wf, y, x, z, reloaded, restorable => by
      rw [Clauses.Wf] at wf
      obtain ⟨wfT, -, -, wfRest⟩ := wf
      rw [Clauses.Reloaded] at reloaded
      rw [Clauses.Restorable, Bindable.isDefault_iff] at restorable
      obtain ⟨⟨skipped, read⟩, restorableRest⟩ := restorable
      rw [Clauses.Agree, reloaded.1, Ty.saveLoadP]
      refine ⟨?_, rest.agree_of_reloaded wfRest reloaded.2 restorableRest⟩
      split_ifs with default
      · exact skipped (Or.inl default)
      · by_cases h : t.Omitted (member.get x).value
        · rw [Ty.saveLoadF_of_omitted wfT _ h]
          exact skipped (Or.inr h)
        · rw [Ty.saveLoadF_of_not_omitted wfT _ h]
          exact t.agree_saveLoad wfT (read (not_or.mpr ⟨default, h⟩))
  | _, .B base clauses rest, wf, y, x, z, reloaded, restorable => by
      rw [Clauses.Wf] at wf
      obtain ⟨wfBase, -, -, wfRest⟩ := wf
      rw [Clauses.Reloaded] at reloaded
      rw [Clauses.Restorable] at restorable
      rw [Clauses.Agree, reloaded.1]
      exact ⟨clauses.agree_of_reloaded wfBase (Clauses.reloaded p wfBase _ _) restorable.1,
        rest.agree_of_reloaded wfRest reloaded.2 restorable.2⟩

end

end Agree

end QvPlugin.Utils
