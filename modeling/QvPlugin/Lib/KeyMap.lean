import Mathlib.Data.List.Basic
import Mathlib.Data.List.OfFn
import Mathlib.Data.List.Sort
import Mathlib.Order.Basic

set_option autoImplicit false
set_option relaxedAutoImplicit false

namespace QvPlugin.Lib

universe u v w

/-- A finite map with its keys in strictly increasing order, so that equal contents
are equal maps; the order says nothing about how a program lists the keys. The values are
indexed by position, which lets an inductive type nest a `KeyMap` of itself. -/
structure KeyMap (κ : Type u) (ν : Type v) [LinearOrder κ] where
  keys : List κ
  sorted : keys.Pairwise (· < ·)
  value : Fin keys.length → ν

namespace KeyMap

variable {κ : Type u} {ν : Type v} {μ : Type w} [LinearOrder κ]

def entries (m : KeyMap κ ν) : List (κ × ν) :=
  List.ofFn fun i => (m.keys.get i, m.value i)

def ofEntries (l : List (κ × ν)) (sorted : (l.map Prod.fst).Pairwise (· < ·)) : KeyMap κ ν where
  keys := l.map Prod.fst
  sorted := sorted
  value i := (l.get (i.cast (List.length_map Prod.fst))).2

theorem keys_eq_map_entries (m : KeyMap κ ν) : m.entries.map Prod.fst = m.keys := by
  simp only [entries, List.map_ofFn]
  exact List.ofFn_get m.keys

theorem entries_sorted (m : KeyMap κ ν) : (m.entries.map Prod.fst).Pairwise (· < ·) := by
  rw [keys_eq_map_entries]
  exact m.sorted

theorem keys_nodup (m : KeyMap κ ν) : (m.entries.map Prod.fst).Nodup :=
  m.entries_sorted.imp fun h => ne_of_lt h

@[simp] theorem entries_ofEntries (l : List (κ × ν))
    (sorted : (l.map Prod.fst).Pairwise (· < ·)) : (ofEntries l sorted).entries = l := by
  apply List.ext_getElem
  · simp [entries, ofEntries]
  · intro i h₁ h₂
    simp [entries, ofEntries]

private theorem ext_value {m n : KeyMap κ ν} (keys : m.keys = n.keys)
    (value : ∀ (i : Nat) (hm : i < m.keys.length) (hn : i < n.keys.length),
      m.value ⟨i, hm⟩ = n.value ⟨i, hn⟩) : m = n := by
  obtain ⟨mk, ms, mv⟩ := m
  obtain ⟨nk, ns, nv⟩ := n
  simp only at keys value
  subst keys
  have : mv = nv := funext fun i => value i.1 i.2 i.2
  subst this
  rfl

theorem entries_injective : Function.Injective (entries : KeyMap κ ν → List (κ × ν)) := by
  intro m n equal
  have keys : m.keys = n.keys := by
    rw [← keys_eq_map_entries m, ← keys_eq_map_entries n, equal]
  apply ext_value keys
  intro i hm hn
  have pair : m.entries[i]? = n.entries[i]? := by rw [equal]
  simp only [entries, List.getElem?_ofFn, hm, hn, dif_pos, Option.some.injEq, Prod.mk.injEq] at pair
  exact pair.2

instance [DecidableEq ν] : DecidableEq (KeyMap κ ν) :=
  entries_injective.decidableEq

def lookup (m : KeyMap κ ν) (k : κ) : Option ν := m.entries.lookup k

def contains (m : KeyMap κ ν) (k : κ) : Bool := (m.lookup k).isSome

def empty : KeyMap κ ν := ofEntries [] List.Pairwise.nil

instance : EmptyCollection (KeyMap κ ν) := ⟨empty⟩

def isEmpty (m : KeyMap κ ν) : Bool := m.keys.isEmpty

def insertEntry (k : κ) (x : ν) : List (κ × ν) → List (κ × ν)
  | [] => [(k, x)]
  | (k', x') :: rest =>
      if k < k' then (k, x) :: (k', x') :: rest
      else if k = k' then (k, x) :: rest
      else (k', x') :: insertEntry k x rest

private theorem mem_insertEntry {k : κ} {x : ν} {e : κ × ν} {l : List (κ × ν)}
    (member : e ∈ insertEntry k x l) : e = (k, x) ∨ e ∈ l := by
  induction l with
  | nil => simpa [insertEntry] using member
  | cons hd tl ih =>
      simp only [insertEntry] at member
      split_ifs at member with hlt heq
      · rcases List.mem_cons.mp member with rfl | member
        · exact Or.inl rfl
        · exact Or.inr member
      · rcases List.mem_cons.mp member with rfl | member
        · exact Or.inl rfl
        · exact Or.inr (List.mem_cons_of_mem _ member)
      · rcases List.mem_cons.mp member with rfl | member
        · exact Or.inr List.mem_cons_self
        · exact (ih member).imp_right (List.mem_cons_of_mem _)

private theorem insertEntry_sorted (k : κ) (x : ν) {l : List (κ × ν)}
    (sorted : (l.map Prod.fst).Pairwise (· < ·)) :
    ((insertEntry k x l).map Prod.fst).Pairwise (· < ·) := by
  induction l with
  | nil => simp [insertEntry]
  | cons hd tl ih =>
      obtain ⟨k', x'⟩ := hd
      simp only [List.map_cons, List.pairwise_cons, List.mem_map, forall_exists_index, and_imp,
        forall_apply_eq_imp_iff₂] at sorted
      simp only [insertEntry]
      split_ifs with hlt heq
      · simp only [List.map_cons, List.pairwise_cons, List.mem_cons, List.mem_map]
        refine ⟨?_, fun a ha => ?_, sorted.2⟩
        · rintro a (rfl | ⟨e, he, rfl⟩)
          · exact hlt
          · exact hlt.trans (sorted.1 e he)
        · obtain ⟨e, he, rfl⟩ := ha
          exact sorted.1 e he
      · subst heq
        simp only [List.map_cons, List.pairwise_cons, List.mem_map]
        refine ⟨?_, sorted.2⟩
        rintro a ⟨e, he, rfl⟩
        exact sorted.1 e he
      · simp only [List.map_cons, List.pairwise_cons, List.mem_map]
        refine ⟨?_, ih sorted.2⟩
        rintro a ⟨e, he, rfl⟩
        rcases mem_insertEntry he with rfl | he
        · exact lt_of_le_of_ne (not_lt.mp hlt) (Ne.symm heq)
        · exact sorted.1 e he

def set (m : KeyMap κ ν) (k : κ) (x : ν) : KeyMap κ ν :=
  ofEntries (insertEntry k x m.entries) (insertEntry_sorted k x m.entries_sorted)

def erase (m : KeyMap κ ν) (k : κ) : KeyMap κ ν :=
  ofEntries (m.entries.filter fun e => e.1 ≠ k)
    (m.entries_sorted.sublist (List.filter_sublist.map Prod.fst))

def mapValues (f : ν → μ) (m : KeyMap κ ν) : KeyMap κ μ where
  keys := m.keys
  sorted := m.sorted
  value i := f (m.value i)

private theorem lookup_cons_ite (k : κ) (e : κ × ν) (l : List (κ × ν)) :
    (e :: l).lookup k = if k = e.1 then some e.2 else l.lookup k := by
  rw [List.lookup_cons]
  by_cases h : k = e.1
  · simp [h]
  · rw [beq_eq_false_iff_ne.mpr h, if_neg h]

private theorem lookup_insertEntry (k k' : κ) (x : ν) (l : List (κ × ν)) :
    (insertEntry k x l).lookup k' = if k' = k then some x else l.lookup k' := by
  induction l with
  | nil => simp only [insertEntry, lookup_cons_ite]
  | cons hd tl ih =>
      obtain ⟨k₀, x₀⟩ := hd
      simp only [insertEntry]
      by_cases hlt : k < k₀
      · rw [if_pos hlt, lookup_cons_ite]
      · by_cases heq : k = k₀
        · subst heq
          rw [if_neg hlt, if_pos rfl, lookup_cons_ite, lookup_cons_ite]
          split_ifs <;> rfl
        · rw [if_neg hlt, if_neg heq, lookup_cons_ite, lookup_cons_ite, ih]
          split_ifs with h₁ h₂
          · exact absurd (h₂.symm.trans h₁) heq
          all_goals rfl

@[simp] theorem lookup_set (m : KeyMap κ ν) (k k' : κ) (x : ν) :
    (m.set k x).lookup k' = if k' = k then some x else m.lookup k' := by
  simp only [lookup, set, entries_ofEntries, lookup_insertEntry]

private theorem lookup_filter_ne (k k' : κ) (l : List (κ × ν)) :
    (l.filter fun e => e.1 ≠ k).lookup k' = if k' = k then none else l.lookup k' := by
  induction l with
  | nil => simp
  | cons hd tl ih =>
      by_cases h₀ : hd.1 = k
      · rw [List.filter_cons_of_neg (by simpa using h₀), ih, lookup_cons_ite, h₀]
        split_ifs <;> rfl
      · rw [List.filter_cons_of_pos (by simpa using h₀), lookup_cons_ite, lookup_cons_ite, ih]
        split_ifs with h₁ h₂
        · exact absurd (h₁.symm.trans h₂) h₀
        all_goals rfl

@[simp] theorem lookup_erase (m : KeyMap κ ν) (k k' : κ) :
    (m.erase k).lookup k' = if k' = k then none else m.lookup k' := by
  simp only [lookup, erase, entries_ofEntries]
  exact lookup_filter_ne k k' m.entries

@[simp] theorem lookup_empty (k : κ) : (∅ : KeyMap κ ν).lookup k = none := by
  change (ofEntries [] List.Pairwise.nil : KeyMap κ ν).entries.lookup k = none
  rw [entries_ofEntries]
  rfl

theorem entries_mapValues (f : ν → μ) (m : KeyMap κ ν) :
    (m.mapValues f).entries = m.entries.map fun e => (e.1, f e.2) := by
  simp [entries, mapValues, List.map_ofFn, Function.comp_def]

private theorem lookup_map (f : ν → μ) (k : κ) (l : List (κ × ν)) :
    (l.map fun e => (e.1, f e.2)).lookup k = (l.lookup k).map f := by
  induction l with
  | nil => rfl
  | cons hd tl ih =>
      rw [List.map_cons, lookup_cons_ite, lookup_cons_ite, ih]
      split_ifs <;> rfl

@[simp] theorem lookup_mapValues (f : ν → μ) (m : KeyMap κ ν) (k : κ) :
    (m.mapValues f).lookup k = (m.lookup k).map f := by
  rw [lookup, entries_mapValues, lookup_map, lookup]

private theorem lookup_eq_some_iff_of_nodup {k : κ} {x : ν} {l : List (κ × ν)}
    (nodup : (l.map Prod.fst).Nodup) : l.lookup k = some x ↔ (k, x) ∈ l := by
  induction l with
  | nil => simp
  | cons hd tl ih =>
      obtain ⟨k₀, x₀⟩ := hd
      rw [List.map_cons, List.nodup_cons] at nodup
      by_cases h : k = k₀
      · subst h
        have fresh : (k, x) ∉ tl := fun member => nodup.1 (List.mem_map.mpr ⟨(k, x), member, rfl⟩)
        simp [lookup_cons_ite, fresh, eq_comm]
      · simp [lookup_cons_ite, h, ih nodup.2]

theorem lookup_eq_some_iff {m : KeyMap κ ν} {k : κ} {x : ν} :
    m.lookup k = some x ↔ (k, x) ∈ m.entries :=
  lookup_eq_some_iff_of_nodup m.keys_nodup

theorem mem_keys_iff {m : KeyMap κ ν} {k : κ} : k ∈ m.keys ↔ ∃ x, m.lookup k = some x := by
  rw [← keys_eq_map_entries]
  simp only [List.mem_map, lookup_eq_some_iff]
  exact ⟨fun ⟨e, he, hk⟩ => ⟨e.2, hk ▸ he⟩, fun ⟨x, hx⟩ => ⟨(k, x), hx, rfl⟩⟩

def entriesAt (m : KeyMap κ ν) (ks : List κ) : List (κ × ν) :=
  ks.filterMap fun k => (m.lookup k).map (Prod.mk k)

theorem entriesAt_cons {m : KeyMap κ ν} {k : κ} {x : ν} (held : m.lookup k = some x)
    (ks : List κ) : m.entriesAt (k :: ks) = (k, x) :: m.entriesAt ks := by
  rw [entriesAt, List.filterMap_cons, held]
  rfl

theorem keys_entriesAt {m : KeyMap κ ν} {ks : List κ} (listed : ∀ k ∈ ks, k ∈ m.keys) :
    (m.entriesAt ks).map Prod.fst = ks := by
  induction ks with
  | nil => rfl
  | cons k ks ih =>
      obtain ⟨x, held⟩ := mem_keys_iff.mp (listed k List.mem_cons_self)
      rw [entriesAt_cons held, List.map_cons, ih fun k' own => listed k' (List.mem_cons_of_mem k own)]

theorem mem_entriesAt {m : KeyMap κ ν} {ks : List κ} {e : κ × ν} :
    e ∈ m.entriesAt ks ↔ e.1 ∈ ks ∧ m.lookup e.1 = some e.2 := by
  obtain ⟨k, x⟩ := e
  simp only [entriesAt, List.mem_filterMap, Option.map_eq_some_iff, Prod.mk.injEq]
  constructor
  · rintro ⟨k', own, x', held, rfl, rfl⟩
    exact ⟨own, held⟩
  · rintro ⟨own, held⟩
    exact ⟨k, own, x, held, rfl, rfl⟩

theorem entriesAt_mapValues (f : ν → μ) (m : KeyMap κ ν) (ks : List κ) :
    (m.mapValues f).entriesAt ks = (m.entriesAt ks).map fun e => (e.1, f e.2) := by
  rw [entriesAt, entriesAt, List.map_filterMap]
  apply List.filterMap_congr
  intro k _
  rw [lookup_mapValues, Option.map_map, Option.map_map]
  rfl

theorem lookup_entriesAt {m : KeyMap κ ν} {ks : List κ} (listing : ks.Perm m.keys) (k : κ) :
    (m.entriesAt ks).lookup k = m.lookup k := by
  have keys : (m.entriesAt ks).map Prod.fst = ks :=
    keys_entriesAt fun k own => listing.mem_iff.mp own
  have nodup : ((m.entriesAt ks).map Prod.fst).Nodup := by
    rw [keys]
    exact listing.nodup_iff.mpr (m.sorted.imp fun less => ne_of_lt less)
  have found : ∀ x, (m.entriesAt ks).lookup k = some x ↔ m.lookup k = some x := by
    intro x
    rw [lookup_eq_some_iff_of_nodup nodup, mem_entriesAt, listing.mem_iff, mem_keys_iff]
    exact ⟨fun held => held.2, fun held => ⟨⟨x, held⟩, held⟩⟩
  exact Option.ext found

theorem foldl_lookup {β : Type w} (m : KeyMap κ ν) (f : β → κ → Option ν → β) {ks : List κ}
    (listed : ∀ k ∈ ks, k ∈ m.keys) (state : β) :
    ks.foldl (fun state k => f state k (m.lookup k)) state =
      (m.entriesAt ks).foldl (fun state e => f state e.1 (some e.2)) state := by
  induction ks generalizing state with
  | nil => rfl
  | cons k ks ih =>
      obtain ⟨x, held⟩ := mem_keys_iff.mp (listed k List.mem_cons_self)
      rw [entriesAt_cons held, List.foldl_cons, List.foldl_cons, held]
      exact ih (fun k' own => listed k' (List.mem_cons_of_mem k own)) _

@[ext] theorem ext {m n : KeyMap κ ν} (same : ∀ k, m.lookup k = n.lookup k) : m = n := by
  apply entries_injective
  have nodup (p : KeyMap κ ν) : p.entries.Nodup :=
    p.keys_nodup.of_map Prod.fst
  have perm : m.entries.Perm n.entries := by
    rw [List.perm_ext_iff_of_nodup (nodup m) (nodup n)]
    rintro ⟨k, x⟩
    rw [← lookup_eq_some_iff, ← lookup_eq_some_iff, same k]
  have sorted (p : KeyMap κ ν) : p.entries.Pairwise fun a b => a.1 < b.1 :=
    List.pairwise_map.mp p.entries_sorted
  exact perm.eq_of_pairwise (fun a b _ _ hab hba => absurd hab hba.asymm) (sorted m) (sorted n)

theorem isEmpty_iff {m : KeyMap κ ν} : m.isEmpty = true ↔ m = ∅ := by
  rw [isEmpty, List.isEmpty_iff]
  constructor
  · intro keys
    ext1 k
    rw [lookup_empty]
    by_contra present
    obtain ⟨x, hx⟩ := Option.ne_none_iff_exists'.mp present
    have member : k ∈ m.keys := mem_keys_iff.mpr ⟨x, hx⟩
    simp [keys] at member
  · rintro rfl
    rfl

theorem set_lookup_self {m : KeyMap κ ν} {k : κ} {x : ν} (h : m.lookup k = some x) :
    m.set k x = m := by
  ext1 k'
  rw [lookup_set]
  split_ifs with hk
  · rw [hk, h]
  · rfl

/-- A loop over pairs with distinct keys whose step only touches the pair's own key: each key
is met at most once, so its value is one step from where the loop started. -/
theorem lookup_foldl_of_step (step : KeyMap κ ν → κ × μ → KeyMap κ ν) (new : Option ν → μ → ν)
    (spec : ∀ m e k, (step m e).lookup k =
      if k = e.1 then some (new (m.lookup k) e.2) else m.lookup k)
    (l : List (κ × μ)) (nodup : (l.map Prod.fst).Nodup) (m : KeyMap κ ν) (k : κ) :
    (l.foldl step m).lookup k =
      ((l.lookup k).map (new (m.lookup k))).or (m.lookup k) := by
  induction l generalizing m with
  | nil => simp
  | cons hd tl ih =>
      simp only [List.map_cons, List.nodup_cons] at nodup
      rw [List.foldl_cons, ih nodup.2, spec, lookup_cons_ite]
      split_ifs with h
      · have absent : tl.lookup k = none := by
          rw [List.lookup_eq_none_iff]
          intro e he
          have : k ≠ e.1 := fun same => nodup.1 (h ▸ same ▸ List.mem_map_of_mem he)
          simpa using this
        rw [absent, Option.map_none, Option.none_or, Option.map_some, Option.some_or]
      · rfl

theorem lookup_foldl_set {l : List (κ × ν)} (nodup : (l.map Prod.fst).Nodup) (m : KeyMap κ ν)
    (k : κ) : (l.foldl (fun m e => m.set e.1 e.2) m).lookup k = (l.lookup k).or (m.lookup k) := by
  rw [lookup_foldl_of_step (fun m e => m.set e.1 e.2) (fun _ x => x)
    (fun m e k => lookup_set m e.1 k e.2) l nodup]
  exact congrArg (fun found : Option ν => found.or (m.lookup k)) Option.map_id'

theorem foldl_set_entries (m : KeyMap κ ν) :
    m.entries.foldl (fun m e => m.set e.1 e.2) ∅ = m := by
  ext1 k
  rw [lookup_foldl_set m.keys_nodup, lookup_empty, Option.or_none]
  rfl

end KeyMap

end QvPlugin.Lib
