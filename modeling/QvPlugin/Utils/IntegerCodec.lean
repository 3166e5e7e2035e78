import QvPlugin.Common.WellFormed

/-!
The integer overloads of `Serialize` and `Deserialize`. Each type takes its own way through
`QJsonValue` and `QVariant`; a JSON value holds a signed 64-bit integer exactly, and an unsigned
one beyond that as the nearest double.
-/

set_option autoImplicit false
set_option relaxedAutoImplicit false

namespace QvPlugin.Utils

open Lib Qt Common

/-- The conversions of a `QVariant` to the other integer types that do not start from an integer. -/
structure IntegerPlatform extends Platform where
  stringToUInt : QString → UInt32
  doubleToUInt : ℚ → UInt32
  stringToLongLong : QString → Int64
  doubleToLongLong : ℚ → Int64

noncomputable def IntegerPlatform.reference : IntegerPlatform where
  toPlatform := Platform.reference
  stringToUInt s := s.toNat?.elim 0 UInt32.ofNat
  doubleToUInt q := UInt32.ofNat (q + 1 / 2).floor.toNat
  stringToLongLong s := s.toInt?.elim 0 Int64.ofInt
  doubleToLongLong q := Int64.ofInt (q + 1 / 2).floor

theorem doubleToULongLong_reference (n : ℕ) :
    Platform.reference.doubleToULongLong n = UInt64.ofNat n := by
  have half : (1 / 2 : ℚ).floor = 0 := by decide +kernel
  have floor : ((n : ℚ) + 1 / 2).floor = n := by
    rw [← Int.cast_natCast, Rat.add_comm, Rat.floor_add_intCast, half, zero_add]
  show UInt64.ofNat ((n : ℚ) + 1 / 2).floor.toNat = UInt64.ofNat n
  rw [floor, Int.toNat_natCast]

/-- `toVariant().toUInt()`. A stored 64-bit integer is cast; the rest is `QVariant`'s. -/
def toUInt (p : IntegerPlatform) : QJsonValue → UInt32
  | some (.number q) =>
      (wholeWithin (-2 ^ 63) (2 ^ 63 - 1) q).elim (p.doubleToUInt q)
        fun n => (Int64.ofInt n).toUInt64.toUInt32
  | some (.bool b) => if b then 1 else 0
  | some (.string s) => p.stringToUInt s
  | _ => 0

def toLongLong (p : IntegerPlatform) : QJsonValue → Int64
  | some (.number q) =>
      (wholeWithin (-2 ^ 63) (2 ^ 63 - 1) q).elim (p.doubleToLongLong q) Int64.ofInt
  | some (.bool b) => if b then 1 else 0
  | some (.string s) => p.stringToLongLong s
  | _ => 0

/-- `QJsonValue::fromVariant` of an `unsigned int`, which every 64-bit integer type holds. -/
def fromUInt (x : UInt32) : QJsonValue := some (.number x.toNat)

inductive IntegerType where
  | int
  | unsignedInt
  | longLong
  | unsignedLongLong
  deriving DecidableEq

namespace IntegerType

def Value : IntegerType → Type
  | .int => Int32
  | .unsignedInt => UInt32
  | .longLong => Int64
  | .unsignedLongLong => UInt64

/-- `STORE_SIMPLE_FUNC` and `STORE_VARIANT_FUNC`. -/
def serialize : (type : IntegerType) → type.Value → QJsonValue
  | .int, t => some (.number (Int32.toInt t))
  | .unsignedInt, t => fromUInt t
  | .longLong, t => some (.number (Int64.toInt t))
  | .unsignedLongLong, t => fromULongLong t

/-- `LOAD_SIMPLE_FUNC`. -/
def deserialize (p : IntegerPlatform) : (type : IntegerType) → QJsonValue → type.Value
  | .int, d => toInt d
  | .unsignedInt, d => toUInt p d
  | .longLong, d => toLongLong p d
  | .unsignedLongLong, d => toULongLong p.toPlatform d

/-- The value fits a signed 64-bit integer, or the platform turns its nearest double into it. -/
def Exact (p : IntegerPlatform) : (type : IntegerType) → type.Value → Prop
  | .unsignedLongLong, (v : UInt64) =>
      v.toNat < 2 ^ 63 ∨ p.doubleToULongLong (nearestDouble v.toNat) = v
  | _, _ => True

end IntegerType

variable (p : IntegerPlatform)

section Overloads

theorem toUInt_fromUInt (x : UInt32) : toUInt p (fromUInt x) = x := by
  have small := x.toNat_lt
  have cast : ((x.toNat : ℕ) : ℚ) = ((x.toNat : ℤ) : ℚ) := (Int.cast_natCast x.toNat).symm
  rw [fromUInt, toUInt, cast, wholeWithin_intCast (by omega) (by omega), Option.elim_some,
    Int64.ofInt_eq_ofNat, Int64.toUInt64_ofNat', UInt64.toUInt32_ofNat', UInt32.ofNat_toNat]

theorem toLongLong_number (x : Int64) : toLongLong p (some (.number x.toInt)) = x := by
  have below := x.le_toInt
  have above := x.toInt_lt
  rw [toLongLong, wholeWithin_intCast below (by omega)]
  exact Int64.ofInt_toInt x

theorem nearestDouble_cases (n : ℕ) :
    (nearestDouble n = n / 2048 * 2048 ∧ n % 2048 ≤ 1024) ∨
      (nearestDouble n = (n / 2048 + 1) * 2048 ∧ 1024 ≤ n % 2048) := by
  unfold nearestDouble
  dsimp only
  split_ifs with up
  · exact Or.inr ⟨rfl, by omega⟩
  · exact Or.inl ⟨rfl, by omega⟩

theorem le_nearestDouble {n : ℕ} (large : 2 ^ 63 ≤ n) : 2 ^ 63 ≤ nearestDouble n := by
  rcases nearestDouble_cases n with ⟨below, -⟩ | ⟨above, -⟩
  · omega
  · omega

theorem toULongLong_fromULongLong_of_le {x : UInt64} (large : ¬x.toNat < 2 ^ 63) :
    toULongLong p.toPlatform (fromULongLong x) = p.doubleToULongLong (nearestDouble x.toNat) := by
  have beyond := le_nearestDouble (not_lt.mp large)
  have noInteger : wholeWithin (-2 ^ 63) (2 ^ 63 - 1) (nearestDouble x.toNat : ℚ) = none := by
    unfold wholeWithin
    apply if_neg
    rintro ⟨-, -, within⟩
    rw [Rat.num_natCast] at within
    omega
  rw [fromULongLong, if_neg large, toULongLong, noInteger, Option.elim_none]

theorem unsignedLongLong_iff (v : UInt64) :
    toULongLong p.toPlatform (fromULongLong v) = v ↔
      IntegerType.Exact p .unsignedLongLong v := by
  show _ ↔ v.toNat < 2 ^ 63 ∨ p.doubleToULongLong (nearestDouble v.toNat) = v
  by_cases small : v.toNat < 2 ^ 63
  · exact ⟨fun _ => Or.inl small, fun _ => toULongLong_fromULongLong p.toPlatform small⟩
  · rw [toULongLong_fromULongLong_of_le p small]
    exact ⟨Or.inr, fun exact => exact.resolve_left small⟩

theorem nearestDouble_eq_self_iff (n : ℕ) : nearestDouble n = n ↔ 2048 ∣ n := by
  rcases nearestDouble_cases n with ⟨below, -⟩ | ⟨above, half⟩
  · omega
  · omega

/-- Where the platform keeps a whole double, what survives is what a double holds. The values left
out round to `2 ^ 64`, which no `unsigned long long` is. -/
theorem exact_unsignedLongLong_iff
    (whole : ∀ n : ℕ, n < 2 ^ 64 → p.doubleToULongLong n = UInt64.ofNat n) (v : UInt64)
    (inside : v.toNat < 2 ^ 64 - 1024) :
    IntegerType.Exact p .unsignedLongLong v ↔ v.toNat < 2 ^ 63 ∨ 2048 ∣ v.toNat := by
  have fits : nearestDouble v.toNat < 2 ^ 64 := by
    rcases nearestDouble_cases v.toNat with ⟨below, -⟩ | ⟨above, half⟩
    · omega
    · omega
  have back : UInt64.ofNat (nearestDouble v.toNat) = v ↔ nearestDouble v.toNat = v.toNat := by
    rw [← UInt64.toNat_inj, UInt64.toNat_ofNat_of_lt' fits]
  show v.toNat < 2 ^ 63 ∨ p.doubleToULongLong (nearestDouble v.toNat) = v ↔ _
  rw [whole _ fits, back, nearestDouble_eq_self_iff]

end Overloads

/-- The codecs of the `QJS_JSON` members are the overloads of their types. -/
theorem Leaf.int_codec (x : Int32) (d : QJsonValue) :
    Leaf.int.serialize x = IntegerType.int.serialize x ∧
      Leaf.int.deserialize p.toPlatform d = IntegerType.int.deserialize p d := ⟨rfl, rfl⟩

theorem Leaf.ulonglong_codec (x : UInt64) (d : QJsonValue) :
    Leaf.ulonglong.serialize x = IntegerType.unsignedLongLong.serialize x ∧
      Leaf.ulonglong.deserialize p.toPlatform d = IntegerType.unsignedLongLong.deserialize p d :=
  ⟨rfl, rfl⟩

private theorem saveLoadF_ulonglong (y v : UInt64) :
    (Ty.leaf .ulonglong).saveLoadF p.toPlatform y v =
      toULongLong p.toPlatform (fromULongLong v) := by
  have wf : (Ty.leaf .ulonglong).Wf := by rw [Ty.Wf]; trivial
  have written : ¬(Ty.leaf .ulonglong).Omitted v := by
    rw [Ty.Omitted]
    exact id
  rw [Ty.saveLoadF_of_not_omitted wf y written, Ty.saveLoad, Ty.serialize, Ty.deserialize]
  rfl

/-- Every `int`, `unsigned int` and `long long` survives, and an `unsigned long long` exactly when
it fits a signed one or the platform makes it out of the nearest double; so do the counters. Where
the platform keeps a whole double, that is when it fits a signed one or is a multiple of 2048. -/
theorem integers_survive_iff :
    (∀ (type : IntegerType) (v : type.Value),
      type.deserialize p (type.serialize v) = v ↔ type.Exact p v) ∧
    (∀ x : StatisticsObject,
      StatisticsObject.clauses.loadJson p.toPlatform
          (some (.object (StatisticsObject.clauses.toJson p.toPlatform x))) {} = x ↔
        IntegerType.Exact p .unsignedLongLong x.directUp ∧
        IntegerType.Exact p .unsignedLongLong x.directDown ∧
        IntegerType.Exact p .unsignedLongLong x.proxyUp ∧
        IntegerType.Exact p .unsignedLongLong x.proxyDown) ∧
    ((∀ n : ℕ, n < 2 ^ 64 → p.doubleToULongLong n = UInt64.ofNat n) →
      ∀ v : UInt64, v.toNat < 2 ^ 64 - 1024 →
        (IntegerType.Exact p .unsignedLongLong v ↔ v.toNat < 2 ^ 63 ∨ 2048 ∣ v.toNat)) := by
  refine ⟨?_, ?_, exact_unsignedLongLong_iff p⟩
  · intro type v
    cases type with
    | int => exact iff_of_true (toInt_number v) trivial
    | unsignedInt => exact iff_of_true (toUInt_fromUInt p v) trivial
    | longLong => exact iff_of_true (toLongLong_number p v) trivial
    | unsignedLongLong => exact unsignedLongLong_iff p v
  · intro x
    have loaded := Clauses.reloaded p.toPlatform StatisticsObject.clauses_regular.2 {} x
    have equal := fun z => StatisticsObject.clauses_exact.2 z x
    generalize StatisticsObject.clauses.loadJson p.toPlatform
      (some (.object (StatisticsObject.clauses.toJson p.toPlatform x))) {} = z at loaded ⊢
    rw [← equal z]
    simp only [StatisticsObject.clauses, Clauses.Reloaded, saveLoadF_ulonglong, and_true] at loaded
    simp only [StatisticsObject.clauses, Clauses.SameMembers, and_true, loaded,
      unsignedLongLong_iff]

/-- `2 ^ 63 + 2048` is a double, and comes back. -/
theorem even_counter_survives :
    IntegerType.deserialize .reference .unsignedLongLong
        (IntegerType.serialize .unsignedLongLong (9223372036854777856 : UInt64)) =
      (9223372036854777856 : UInt64) := by
  obtain ⟨survives, -, explicit⟩ := integers_survive_iff .reference
  have exact_ := (explicit (fun n _ => doubleToULongLong_reference n) 9223372036854777856
    (by decide)).mpr (by decide)
  exact (survives .unsignedLongLong _).mpr exact_

/-- `2 ^ 63 + 1` is stored as the same double as `2 ^ 63`, and does not come back. -/
theorem large_counter_rounded :
    IntegerType.serialize .unsignedLongLong (9223372036854775809 : UInt64) =
        IntegerType.serialize .unsignedLongLong (9223372036854775808 : UInt64) ∧
      IntegerType.deserialize .reference .unsignedLongLong
          (IntegerType.serialize .unsignedLongLong (9223372036854775809 : UInt64)) ≠
        (9223372036854775809 : UInt64) := by
  refine ⟨by decide, ?_⟩
  intro back
  have exact_ := (unsignedLongLong_iff .reference 9223372036854775809).mp back
  have explicit := exact_unsignedLongLong_iff .reference
    (fun n _ => doubleToULongLong_reference n) 9223372036854775809 (by decide)
  exact absurd (explicit.mp exact_) (by decide)

end QvPlugin.Utils
