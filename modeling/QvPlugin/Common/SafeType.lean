import QvPlugin.Qt.Json

set_option autoImplicit false
set_option relaxedAutoImplicit false

namespace QvPlugin.Common

open Lib Qt

/-- The instances that `DeclareSafeJson` makes. -/
inductive SafeJsonTag where
  | IOProtocolSettings
  | IOStreamSettings
  | RuleExtraSettings
  | BalancerSelectorSettings
  | SubscriptionProviderOptions
  deriving DecidableEq

/-- The instances that `DeclareSafeID` makes. -/
inductive IdTag where
  | GroupId
  | ConnectionId
  | RoutingId
  | PluginId
  | KernelId
  | LatencyTestEngineId
  | SubscriptionProviderId
  deriving DecidableEq

structure SafeJsonType (tag : SafeJsonTag) where
  raw : QJsonObject := ∅
  deriving DecidableEq

namespace SafeJsonType

variable {tag : SafeJsonTag}

def toJson (t : SafeJsonType tag) : QJsonObject := t.raw

def loadJson (d : QJsonValue) : SafeJsonType tag := ⟨toObject d⟩

end SafeJsonType

structure IDType (tag : IdTag) where
  m_id : QString := "null"
  deriving DecidableEq

namespace IDType

variable {tag : IdTag}

def toJson (t : IDType tag) : QJsonValue := some (.string t.m_id)

def loadJson (d : QJsonValue) : IDType tag := ⟨toQString d⟩

end IDType

/-- `system_clock::time_point`: a signed 64-bit count of nanoseconds since the epoch. -/
structure TimePoint where
  nanoseconds : Int64 := 0
  deriving DecidableEq

namespace TimePoint

/-- `system_clock::to_time_t`, which truncates toward zero. -/
def to_time_t (t : TimePoint) : Int64 := t.nanoseconds / 1000000000

/-- `system_clock::from_time_t`. The product wraps where the clock cannot hold it. -/
def from_time_t (seconds : Int64) : TimePoint := ⟨seconds * 1000000000⟩

def truncated (t : TimePoint) : TimePoint :=
  ⟨Int64.ofInt (t.nanoseconds.toInt.tdiv 1000000000 * 1000000000)⟩

theorem tdiv_billion_natAbs (n : ℤ) :
    (n.tdiv 1000000000).natAbs = n.natAbs / 1000000000 := Int.natAbs_tdiv _ _

theorem to_time_t_toInt (t : TimePoint) :
    (to_time_t t).toInt = t.nanoseconds.toInt.tdiv 1000000000 := by
  have below := t.nanoseconds.le_toInt
  have above := t.nanoseconds.toInt_lt
  have quotient := tdiv_billion_natAbs t.nanoseconds.toInt
  have billion : (1000000000 : Int64).toInt = 1000000000 := by decide
  rw [to_time_t, Int64.toInt_div, billion]
  apply Int.bmod_eq_of_le <;> omega

theorem truncated_toInt (t : TimePoint) :
    t.truncated.nanoseconds.toInt = t.nanoseconds.toInt.tdiv 1000000000 * 1000000000 := by
  have below := t.nanoseconds.le_toInt
  have above := t.nanoseconds.toInt_lt
  have quotient := tdiv_billion_natAbs t.nanoseconds.toInt
  rw [truncated, Int64.toInt_ofInt]
  have size : ((Int64.size : ℕ) : ℤ) = 2 ^ 64 := by decide
  apply Int.bmod_eq_of_le <;> omega

theorem from_time_t_to_time_t (t : TimePoint) : from_time_t (to_time_t t) = t.truncated := by
  have billion : (1000000000 : Int64).toInt = 1000000000 := by decide
  rw [from_time_t, truncated, mk.injEq, ← Int64.toInt_inj, Int64.toInt_mul, to_time_t_toInt,
    billion, Int64.toInt_ofInt]

end TimePoint

end QvPlugin.Common
