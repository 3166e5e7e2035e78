import QvPlugin.Utils.JsonConversion

/-!
The JSON codec of `system_clock::time_point`. A document holds any 64-bit number of seconds, the
clock only those whose nanoseconds fit 64 bits as well; here `from_time_t` stops where its
product does not fit.
-/

set_option autoImplicit false
set_option relaxedAutoImplicit false

namespace QvPlugin.Common

open Qt Utils

namespace TimePoint

instance : LE TimePoint := ⟨fun t t' => t.nanoseconds ≤ t'.nanoseconds⟩

instance (t t' : TimePoint) : Decidable (t ≤ t') :=
  inferInstanceAs (Decidable (t.nanoseconds ≤ t'.nanoseconds))

theorem le_iff (t t' : TimePoint) : t ≤ t' ↔ t.nanoseconds.toInt ≤ t'.nanoseconds.toInt :=
  Int64.le_iff_toInt_le

def Near (t t' : TimePoint) : Prop :=
  (t.nanoseconds.toInt - t'.nanoseconds.toInt).natAbs < 1000000000

/-- `from_time_t` as far as it is defined: `none` is the overflow of its product. -/
def from_time_tCall (seconds : Int64) : Option TimePoint :=
  if seconds.toBitVec.smulOverflow (1000000000 : Int64).toBitVec then none
  else some (from_time_t seconds)

def deserializeCall (d : QJsonValue) : Option TimePoint := from_time_tCall (toInteger d)

section Call

theorem smulOverflow_eq_false_iff (seconds : Int64) :
    seconds.toBitVec.smulOverflow (1000000000 : Int64).toBitVec = false ↔
      seconds.toInt.natAbs ≤ 9223372036 := by
  have billion : (1000000000 : Int64).toBitVec.toInt = 1000000000 := by decide
  have stored : seconds.toBitVec.toInt = seconds.toInt := rfl
  rw [BitVec.smulOverflow, billion, stored, Bool.or_eq_false_iff, decide_eq_false_iff_not,
    decide_eq_false_iff_not]
  omega

theorem from_time_tCall_of_le {seconds : Int64} (fits : seconds.toInt.natAbs ≤ 9223372036) :
    from_time_tCall seconds = some (from_time_t seconds) := by
  rw [from_time_tCall, (smulOverflow_eq_false_iff seconds).mpr fits]
  rfl

theorem from_time_tCall_eq_some_iff (seconds : Int64) (t : TimePoint) :
    from_time_tCall seconds = some t ↔
      seconds.toInt.natAbs ≤ 9223372036 ∧ from_time_t seconds = t := by
  rw [← smulOverflow_eq_false_iff]
  unfold from_time_tCall
  cases seconds.toBitVec.smulOverflow (1000000000 : Int64).toBitVec with
  | true => simp
  | false => simp

theorem deserializeCall_eq (p : Platform) {d : QJsonValue} {t : TimePoint}
    (made : deserializeCall d = some t) : Leaf.timePoint.deserialize p d = t :=
  ((from_time_tCall_eq_some_iff (toInteger d) t).mp made).2

end Call

section Seconds

theorem to_time_t_natAbs_le (t : TimePoint) : (to_time_t t).toInt.natAbs ≤ 9223372036 := by
  have below := t.nanoseconds.le_toInt
  have above := t.nanoseconds.toInt_lt
  have quotient := tdiv_billion_natAbs t.nanoseconds.toInt
  rw [to_time_t_toInt, quotient]
  omega

theorem from_time_t_toInt {seconds : Int64} (fits : seconds.toInt.natAbs ≤ 9223372036) :
    (from_time_t seconds).nanoseconds.toInt = seconds.toInt * 1000000000 := by
  have billion : (1000000000 : Int64).toInt = 1000000000 := by decide
  rw [from_time_t, Int64.toInt_mul, billion]
  apply Int.bmod_eq_of_le
  · omega
  · omega

theorem to_time_t_from_time_t {seconds : Int64} (fits : seconds.toInt.natAbs ≤ 9223372036) :
    to_time_t (from_time_t seconds) = seconds := by
  rw [← Int64.toInt_inj, to_time_t_toInt, from_time_t_toInt fits]
  exact Int.mul_tdiv_cancel _ (by decide)

theorem to_time_t_from_time_t_iff (seconds : Int64) :
    to_time_t (from_time_t seconds) = seconds ↔ seconds.toInt.natAbs ≤ 9223372036 := by
  constructor
  · intro back
    rw [← back]
    exact to_time_t_natAbs_le (from_time_t seconds)
  · exact to_time_t_from_time_t

end Seconds

section Truncated

theorem near_truncated (t : TimePoint) : t.truncated.Near t := by
  have second : (0 : ℤ) < 1000000000 := by decide
  have fraction := Int.tdiv_mul_add_tmod t.nanoseconds.toInt 1000000000
  have below := Int.lt_tmod_of_pos t.nanoseconds.toInt second
  have above := Int.tmod_lt_of_pos t.nanoseconds.toInt second
  unfold Near
  rw [truncated_toInt]
  omega

theorem truncated_le_truncated {t₁ t₂ : TimePoint} (le : t₁ ≤ t₂) :
    t₁.truncated ≤ t₂.truncated := by
  rw [le_iff] at le ⊢
  have second : (0 : ℤ) < 1000000000 := by decide
  have seconds := Int.tdiv_le_tdiv second le
  rw [truncated_toInt, truncated_toInt]
  omega

theorem deserializeCall_serialize (t : TimePoint) :
    deserializeCall (Leaf.timePoint.serialize t) = some t.truncated := by
  have seconds : toInteger (Leaf.timePoint.serialize t) = to_time_t t :=
    toInteger_number (to_time_t t)
  rw [deserializeCall, seconds, from_time_tCall_of_le (to_time_t_natAbs_le t),
    from_time_t_to_time_t]

theorem deserialize_serialize (p : Platform) (t : TimePoint) :
    Leaf.timePoint.deserialize p (Leaf.timePoint.serialize t) = t.truncated :=
  deserializeCall_eq p (deserializeCall_serialize t)

end Truncated

end TimePoint

open TimePoint

/-- The stored seconds are decoded without overflow, and what they decode to is saved as them. -/
def Survives (n : Int64) : Prop :=
  ∃ t, deserializeCall (some (.number n.toInt)) = some t ∧
    Leaf.timePoint.serialize t = some (.number n.toInt)

theorem survives_iff (n : Int64) : Survives n ↔ n.toInt.natAbs ≤ 9223372036 := by
  have call (t : TimePoint) : deserializeCall (some (.number n.toInt)) = some t ↔
      n.toInt.natAbs ≤ 9223372036 ∧ from_time_t n = t := by
    rw [deserializeCall, toInteger_number, from_time_tCall_eq_some_iff]
  constructor
  · rintro ⟨t, made, -⟩
    exact ((call t).mp made).1
  · intro fits
    refine ⟨from_time_t n, (call _).mpr ⟨fits, rfl⟩, ?_⟩
    rw [Leaf.serialize, to_time_t_from_time_t fits]

/-- Stored seconds survive exactly when the clock holds them; a time point always comes back
within a second, and two of them in the order they were in. -/
theorem timestamps_survive_iff (n : Int64) :
    (Survives n ↔ n.toInt.natAbs ≤ 9223372036) ∧
    (∀ t : TimePoint,
      ∃ t', deserializeCall (Leaf.timePoint.serialize t) = some t' ∧ t'.Near t) ∧
    ∀ t₁ t₂ : TimePoint, t₁ ≤ t₂ →
      ∃ t₁' t₂', deserializeCall (Leaf.timePoint.serialize t₁) = some t₁' ∧
        deserializeCall (Leaf.timePoint.serialize t₂) = some t₂' ∧ t₁' ≤ t₂' := by
  refine ⟨survives_iff n, ?_, ?_⟩
  · intro t
    exact ⟨t.truncated, deserializeCall_serialize t, near_truncated t⟩
  · intro t₁ t₂ le
    exact ⟨t₁.truncated, t₂.truncated, deserializeCall_serialize t₁,
      deserializeCall_serialize t₂, truncated_le_truncated le⟩

/-- A second and a half before the epoch, and half a second after it. -/
theorem epoch_crossed_in_order :
    ∃ t₁' t₂', deserializeCall (Leaf.timePoint.serialize ⟨-1500000000⟩) = some t₁' ∧
      deserializeCall (Leaf.timePoint.serialize ⟨500000000⟩) = some t₂' ∧ t₁' ≤ t₂' :=
  (timestamps_survive_iff 0).2.2 ⟨-1500000000⟩ ⟨500000000⟩ (by decide)

/-- The first second that the clock does not hold. -/
theorem late_timestamp_overflows : ¬ ∀ n : Int64, Survives n := by
  intro claim
  obtain ⟨t, made, -⟩ := claim 9223372037
  have overflow : deserializeCall (some (.number (9223372037 : Int64).toInt)) = none := by
    rw [deserializeCall, toInteger_number]
    decide
  rw [overflow] at made
  exact nomatch made

end QvPlugin.Common
