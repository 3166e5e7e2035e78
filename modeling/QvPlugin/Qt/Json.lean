import Mathlib.Data.Finset.Basic
import Mathlib.Data.Finset.Dedup
import Mathlib.Data.List.Sort
import Mathlib.Data.Int.Cast.Lemmas
import Mathlib.Data.Rat.Defs
import Mathlib.Algebra.Order.Ring.Rat
import Mathlib.Data.String.Basic
import QvPlugin.Lib.KeyMap

/-!
Qt's JSON classes as values. `Undefined` is `none`: an object never holds it, an array
slot can. Numbers are kept by their exact value, so a whole number is the same value
whether Qt stores it as an integer or as a double.
-/

set_option autoImplicit false
set_option relaxedAutoImplicit false

namespace QvPlugin.Qt

open Lib

/-- A text. The order of `String` only serves the representation of maps; `Platform.keys` is the
order in which Qt goes through them. -/
abbrev QString := String

/-- A defined JSON value. The constructor `obj` spells out a `KeyMap`; `Json.object` packs it. -/
inductive Json where
  | null
  | bool (b : Bool)
  | number (q : ℚ)
  | string (s : QString)
  | array (elements : List (Option Json))
  | obj (keys : List QString) (sorted : keys.Pairwise (· < ·)) (value : Fin keys.length → Json)

abbrev QJsonValue := Option Json
abbrev QJsonArray := List QJsonValue
abbrev QJsonObject := KeyMap QString Json

namespace Json

def object (o : QJsonObject) : Json := .obj o.keys o.sorted o.value

/-- Case analysis that meets an object as a `QJsonObject`. -/
@[elab_as_elim, cases_eliminator] theorem cases' {motive : Json → Prop} (null : motive .null)
    (bool : ∀ b, motive (.bool b)) (number : ∀ q, motive (.number q))
    (string : ∀ s, motive (.string s)) (array : ∀ a, motive (.array a))
    (object : ∀ o, motive (.object o)) (j : Json) : motive j :=
  match j with
  | .null => null
  | .bool b => bool b
  | .number q => number q
  | .string s => string s
  | .array a => array a
  | .obj ks sorted vs => object ⟨ks, sorted, vs⟩

mutual

private def decEq : (a b : Json) → Decidable (a = b)
  | .null, .null => isTrue rfl
  | .bool a, .bool b => decidable_of_iff (a = b) (by simp)
  | .number a, .number b => decidable_of_iff (a = b) (by simp)
  | .string a, .string b => decidable_of_iff (a = b) (by simp)
  | .array a, .array b =>
      match decEqList a b with
      | isTrue h => isTrue (by rw [h])
      | isFalse h => isFalse (by simpa using h)
  | .obj ks _ vs, .obj ks' _ vs' =>
      if h : ks = ks' then
        have := fun i => decEq (vs i) (vs' (i.cast (congrArg List.length h)))
        decidable_of_iff (∀ i, vs i = vs' (i.cast (congrArg List.length h))) (by
          subst h
          simp [funext_iff])
      else isFalse (by simp [h])
  | .null, .bool _ | .null, .number _ | .null, .string _ | .null, .array _ | .null, .obj ..
  | .bool _, .null | .bool _, .number _ | .bool _, .string _ | .bool _, .array _ | .bool _, .obj ..
  | .number _, .null | .number _, .bool _ | .number _, .string _ | .number _, .array _
  | .number _, .obj .. | .string _, .null | .string _, .bool _ | .string _, .number _
  | .string _, .array _ | .string _, .obj .. | .array _, .null | .array _, .bool _
  | .array _, .number _ | .array _, .string _ | .array _, .obj .. | .obj .., .null
  | .obj .., .bool _ | .obj .., .number _ | .obj .., .string _ | .obj .., .array _ =>
      isFalse (by simp)

private def decEqList : (a b : List (Option Json)) → Decidable (a = b)
  | [], [] => isTrue rfl
  | a :: as, b :: bs =>
      match decEqOption a b, decEqList as bs with
      | isTrue h, isTrue hs => isTrue (by rw [h, hs])
      | isFalse h, _ => isFalse (by simp [h])
      | _, isFalse hs => isFalse (by simp [hs])
  | [], _ :: _ | _ :: _, [] => isFalse (by simp)

private def decEqOption : (a b : Option Json) → Decidable (a = b)
  | none, none => isTrue rfl
  | some a, some b =>
      match decEq a b with
      | isTrue h => isTrue (by rw [h])
      | isFalse h => isFalse (by simpa using h)
  | none, some _ | some _, none => isFalse (by simp)

end

instance : DecidableEq Json := decEq

end Json

/-- What the Qt build supplies and the headers leave open: the order in which `keys()` lists the
keys of an object, the iteration order of a hash set and the conversions of a `QVariant` that do
not start from a 64-bit integer. -/
structure Platform where
  keyOrder : List QString → List QString
  keyOrder_perm : ∀ keys, (keyOrder keys).Perm keys
  setOrder : {α : Type} → [DecidableEq α] → Finset α → List α
  setOrder_nodup : ∀ {α : Type} [DecidableEq α] (s : Finset α), (setOrder s).Nodup
  mem_setOrder : ∀ {α : Type} [DecidableEq α] (s : Finset α) (a : α), a ∈ setOrder s ↔ a ∈ s
  stringToULongLong : QString → UInt64
  doubleToULongLong : ℚ → UInt64
  stringToFloat : QString → ℚ

def utf16 (s : QString) : List ℕ :=
  s.toList.flatMap fun c =>
    if c.toNat < 0x10000 then [c.toNat]
    else [0xD800 + (c.toNat - 0x10000) / 0x400, 0xDC00 + (c.toNat - 0x10000) % 0x400]

/-- One such build: it lists keys by their code units and a set in some order, and rounds a double
to the nearest integer. -/
noncomputable def Platform.reference : Platform where
  keyOrder keys := keys.insertionSort fun a b => utf16 a ≤ utf16 b
  keyOrder_perm keys := List.perm_insertionSort _ keys
  setOrder s := s.toList
  setOrder_nodup s := s.nodup_toList
  mem_setOrder _ _ := Finset.mem_toList
  stringToULongLong s := s.toNat?.elim 0 UInt64.ofNat
  doubleToULongLong q := UInt64.ofNat (q + 1 / 2).floor.toNat
  stringToFloat s := s.toNat?.elim 0 fun n => n

-- U+1F600 is the greater code point, but its first code unit is the smaller one.
example : Platform.reference.keyOrder ["\uFFFD", "😀"] = ["😀", "\uFFFD"] := rfl

namespace Platform

variable (p : Platform) {ν : Type}

def keys (o : KeyMap QString ν) : List QString := p.keyOrder o.keys

def entries (o : KeyMap QString ν) : List (QString × ν) := o.entriesAt (p.keys o)

theorem mem_keys {o : KeyMap QString ν} {k : QString} : k ∈ p.keys o ↔ k ∈ o.keys :=
  (p.keyOrder_perm o.keys).mem_iff

theorem keys_entries (o : KeyMap QString ν) : (p.entries o).map Prod.fst = p.keys o :=
  KeyMap.keys_entriesAt fun _ => p.mem_keys.mp

theorem nodup_keys (o : KeyMap QString ν) : (p.keys o).Nodup :=
  (p.keyOrder_perm o.keys).nodup_iff.mpr (o.sorted.imp fun less => ne_of_lt less)

theorem lookup_entries (o : KeyMap QString ν) (k : QString) :
    (p.entries o).lookup k = o.lookup k :=
  KeyMap.lookup_entriesAt (p.keyOrder_perm o.keys) k

theorem mem_entries {o : KeyMap QString ν} {e : QString × ν} :
    e ∈ p.entries o ↔ e ∈ o.entries := by
  rw [entries, KeyMap.mem_entriesAt, mem_keys, KeyMap.mem_keys_iff, ← KeyMap.lookup_eq_some_iff]
  exact ⟨fun held => held.2, fun held => ⟨⟨e.2, held⟩, held⟩⟩

theorem foldl_set_entries (o : KeyMap QString ν) :
    (p.entries o).foldl (fun m e => m.set e.1 e.2) ∅ = o := by
  have distinct : ((p.entries o).map Prod.fst).Nodup := by
    rw [keys_entries]
    exact p.nodup_keys o
  ext1 k
  rw [KeyMap.lookup_foldl_set distinct, KeyMap.lookup_empty, Option.or_none, lookup_entries]

theorem entries_mapValues {μ : Type} (f : ν → μ) (o : KeyMap QString ν) :
    p.entries (o.mapValues f) = (p.entries o).map fun e => (e.1, f e.2) :=
  KeyMap.entriesAt_mapValues f o (p.keys o)

end Platform

def isObject : QJsonValue → Bool
  | some (.obj ..) => true
  | _ => false

def isArray : QJsonValue → Bool
  | some (.array _) => true
  | _ => false

def toObject : QJsonValue → QJsonObject
  | some (.obj keys sorted value) => ⟨keys, sorted, value⟩
  | _ => ∅

def toArray : QJsonValue → QJsonArray
  | some (.array a) => a
  | _ => []

def toBool : QJsonValue → Bool
  | some (.bool b) => b
  | _ => false

def toQString : QJsonValue → QString
  | some (.string s) => s
  | _ => ""

/-- The integer a number stands for, when it is whole and within bounds. -/
def wholeWithin (lo hi : ℤ) (q : ℚ) : Option ℤ :=
  if q.den = 1 ∧ lo ≤ q.num ∧ q.num ≤ hi then some q.num else none

/-- `toInt`: 0 for what is not a whole number of the `int` range. -/
def toInt : QJsonValue → Int32
  | some (.number q) => (wholeWithin (-2 ^ 31) (2 ^ 31 - 1) q).elim 0 Int32.ofInt
  | _ => 0

/-- `toInteger`: 0 for what is not a whole number of the `qint64` range. -/
def toInteger : QJsonValue → Int64
  | some (.number q) => (wholeWithin (-2 ^ 63) (2 ^ 63 - 1) q).elim 0 Int64.ofInt
  | _ => 0

/-- `toVariant().toULongLong()`. A stored 64-bit integer is cast; the rest is `QVariant`'s. -/
def toULongLong (p : Platform) : QJsonValue → UInt64
  | some (.number q) =>
      (wholeWithin (-2 ^ 63) (2 ^ 63 - 1) q).elim (p.doubleToULongLong q)
        fun n => (Int64.ofInt n).toUInt64
  | some (.bool b) => if b then 1 else 0
  | some (.string s) => p.stringToULongLong s
  | _ => 0

def toFloat (p : Platform) : QJsonValue → ℚ
  | some (.number q) => q
  | some (.bool b) => if b then 1 else 0
  | some (.string s) => p.stringToFloat s
  | _ => 0

/-- The nearest double of a natural number in `[2 ^ 63, 2 ^ 64)`, where doubles are 2048 apart
and a tie goes to the even multiple. -/
def nearestDouble (n : ℕ) : ℕ :=
  let below := n / 2048
  let rest := n % 2048
  if 1024 < rest ∨ (rest = 1024 ∧ below % 2 = 1) then (below + 1) * 2048 else below * 2048

/-- `QJsonValue::fromVariant` of an `unsigned long long`. -/
def fromULongLong (x : UInt64) : QJsonValue :=
  if x.toNat < 2 ^ 63 then some (.number x.toNat) else some (.number (nearestDouble x.toNat))

namespace QJsonObject

/-- `insert`: an undefined value removes the key. -/
def insert (o : QJsonObject) (k : QString) : QJsonValue → QJsonObject
  | some j => o.set k j
  | none => o.erase k

/-- What the mutable `operator[]` does to the object: a missing key is created as Null. -/
def touch (o : QJsonObject) (k : QString) : QJsonObject :=
  if o.contains k then o else o.set k .null

/-- `o[k]` read through the mutable `operator[]`, which is also the one picked on the
temporary that `toObject()` returns. -/
def subscript (o : QJsonObject) (k : QString) : QJsonValue := (touch o k).lookup k

/-- `o[k] = v`. -/
def assign (o : QJsonObject) (k : QString) (v : QJsonValue) : QJsonObject := insert (touch o k) k v

end QJsonObject

namespace QJsonArray

/-- `append`: an undefined value is stored as Null. -/
def append (a : QJsonArray) (v : QJsonValue) : QJsonArray := a ++ [some (v.getD .null)]

/-- A value as `append` stores it. -/
def settled (v : QJsonValue) : QJsonValue := some (v.getD .null)

/-- `a[i]` read through the mutable `operator[]`; past the end it is taken as Undefined. -/
def subscript (a : QJsonArray) (i : ℕ) : QJsonValue := (a[i]?).join

/-- `a[i] = v`, which keeps an undefined value as it is. -/
def assign (a : QJsonArray) (i : ℕ) (v : QJsonValue) : QJsonArray := a.set i v

end QJsonArray

/-- `QJsonValue::operator[](QString) const`. -/
def valueAtKey (v : QJsonValue) (k : QString) : QJsonValue := (toObject v).lookup k

/-- `QJsonValue::operator[](qsizetype) const`. -/
def valueAtIndex (v : QJsonValue) (i : ℕ) : QJsonValue := ((toArray v)[i]?).join

@[simp] theorem toObject_object (o : QJsonObject) : toObject (some (.object o)) = o := rfl
@[simp] theorem isObject_object (o : QJsonObject) : isObject (some (.object o)) = true := rfl
@[simp] theorem isArray_object (o : QJsonObject) : isArray (some (.object o)) = false := rfl
@[simp] theorem toArray_object (o : QJsonObject) : toArray (some (.object o)) = [] := rfl
@[simp] theorem toArray_array (a : QJsonArray) : toArray (some (.array a)) = a := rfl
@[simp] theorem isArray_array (a : QJsonArray) : isArray (some (.array a)) = true := rfl
@[simp] theorem isObject_array (a : QJsonArray) : isObject (some (.array a)) = false := rfl
@[simp] theorem toObject_array (a : QJsonArray) : toObject (some (.array a)) = ∅ := rfl
@[simp] theorem toBool_bool (b : Bool) : toBool (some (.bool b)) = b := rfl
@[simp] theorem toQString_string (s : QString) : toQString (some (.string s)) = s := rfl

theorem QJsonArray.settled_settled (v : QJsonValue) :
    QJsonArray.settled (QJsonArray.settled v) = QJsonArray.settled v := rfl

theorem QJsonArray.foldl_append (a b : QJsonArray) :
    b.foldl QJsonArray.append a = a ++ b.map QJsonArray.settled := by
  induction b generalizing a with
  | nil => exact (List.append_nil a).symm
  | cons v b ih =>
      rw [List.foldl_cons, ih, QJsonArray.append, List.append_assoc]
      rfl

@[simp] theorem Json.object_inj {o o' : QJsonObject} : Json.object o = .object o' ↔ o = o' :=
  ⟨fun h => congrArg (fun j => toObject (some j)) h, congrArg _⟩

theorem eq_object_of_isObject {v : QJsonValue} (h : isObject v = true) :
    v = some (.object (toObject v)) := by
  match v with
  | some (.obj ..) => rfl

theorem eq_array_of_isArray {v : QJsonValue} (h : isArray v = true) :
    v = some (.array (toArray v)) := by
  match v with
  | some (.array _) => rfl

theorem eq_object_of_lookup {v : QJsonValue} {k : QString} {j : Json}
    (h : (toObject v).lookup k = some j) : v = some (.object (toObject v)) := by
  match v with
  | some (.obj ..) => rfl
  | some .null | some (.bool _) | some (.number _) | some (.string _) | some (.array _) | none =>
      simp [toObject] at h

/-- Induction that goes from the members of an object to the object. -/
theorem Json.member_induction {motive : Json → Prop}
    (step : ∀ j, (∀ k x, (toObject (some j)).lookup k = some x → motive x) → motive j) :
    ∀ j, motive j
  | .obj keys sorted value => by
      apply step
      intro k x held
      have listed : (k, x) ∈ (⟨keys, sorted, value⟩ : QJsonObject).entries :=
        KeyMap.lookup_eq_some_iff.mp held
      obtain ⟨i, entry⟩ := List.mem_ofFn.mp listed
      have member : value i = x := congrArg Prod.snd entry
      rw [← member]
      exact Json.member_induction step (value i)
  | .null => step _ fun k x held => nomatch (KeyMap.lookup_empty k).symm.trans held
  | .bool _ => step _ fun k x held => nomatch (KeyMap.lookup_empty k).symm.trans held
  | .number _ => step _ fun k x held => nomatch (KeyMap.lookup_empty k).symm.trans held
  | .string _ => step _ fun k x held => nomatch (KeyMap.lookup_empty k).symm.trans held
  | .array _ => step _ fun k x held => nomatch (KeyMap.lookup_empty k).symm.trans held

theorem wholeWithin_intCast {lo hi n : ℤ} (below : lo ≤ n) (above : n ≤ hi) :
    wholeWithin lo hi (n : ℚ) = some n := by
  simp [wholeWithin, below, above]

@[simp] theorem toInt_number (x : Int32) : toInt (some (.number x.toInt)) = x := by
  have below := x.le_toInt
  have above := x.toInt_lt
  rw [toInt, wholeWithin_intCast below (by omega)]
  exact Int32.ofInt_toInt x

@[simp] theorem toInteger_number (x : Int64) : toInteger (some (.number x.toInt)) = x := by
  have below := x.le_toInt
  have above := x.toInt_lt
  rw [toInteger, wholeWithin_intCast below (by omega)]
  exact Int64.ofInt_toInt x

theorem toULongLong_fromULongLong (p : Platform) {x : UInt64} (small : x.toNat < 2 ^ 63) :
    toULongLong p (fromULongLong x) = x := by
  rw [fromULongLong, if_pos small, toULongLong]
  have cast : ((x.toNat : ℕ) : ℚ) = ((x.toNat : ℤ) : ℚ) := (Int.cast_natCast x.toNat).symm
  rw [cast, wholeWithin_intCast (by omega) (by omega), Option.elim_some, Int64.ofInt_eq_ofNat,
    Int64.toUInt64_ofNat', UInt64.ofNat_toNat]

namespace QJsonObject

theorem lookup_insert (o : QJsonObject) (k k' : QString) (v : QJsonValue) :
    (insert o k v).lookup k' = if k' = k then v else o.lookup k' := by
  cases v <;> simp [insert]

theorem insert_insert (o : QJsonObject) (k : QString) (v w : QJsonValue) :
    insert (insert o k v) k w = insert o k w := by
  ext1 k'
  rw [lookup_insert, lookup_insert, lookup_insert]
  split_ifs <;> rfl

theorem lookup_touch (o : QJsonObject) (k k' : QString) :
    (touch o k).lookup k' = if k' = k then some ((o.lookup k).getD .null) else o.lookup k' := by
  rw [touch, KeyMap.contains]
  split_ifs with present same same
  · obtain ⟨j, hj⟩ := Option.isSome_iff_exists.mp present
    rw [same, hj, Option.getD_some]
  · rfl
  · have absent : o.lookup k = none := by simpa using present
    rw [KeyMap.lookup_set, if_pos same, absent, Option.getD_none]
  · rw [KeyMap.lookup_set, if_neg same]

theorem subscript_eq (o : QJsonObject) (k : QString) :
    subscript o k = some ((o.lookup k).getD .null) := by
  rw [subscript, lookup_touch, if_pos rfl]

theorem subscript_of_lookup {o : QJsonObject} {k : QString} {j : Json} (h : o.lookup k = some j) :
    subscript o k = some j := by
  rw [subscript_eq, h, Option.getD_some]

theorem assign_eq_insert (o : QJsonObject) (k : QString) (v : QJsonValue) :
    assign o k v = insert o k v := by
  ext1 k'
  rw [assign, lookup_insert, lookup_insert, lookup_touch]
  split_ifs <;> rfl

theorem lookup_assign (o : QJsonObject) (k k' : QString) (v : QJsonValue) :
    (assign o k v).lookup k' = if k' = k then v else o.lookup k' := by
  rw [assign_eq_insert, lookup_insert]

end QJsonObject

end QvPlugin.Qt
