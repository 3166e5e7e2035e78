import QvPlugin.Common.WellFormed

/-! What saving and loading a connection or a group keeps: all but fractions of a second. -/

set_option autoImplicit false
set_option relaxedAutoImplicit false

namespace QvPlugin.Common

open Lib Qt Utils

def StatisticsObject.InRange (statistics : StatisticsObject) : Prop :=
  statistics.directUp.toNat < 2 ^ 63 ∧ statistics.directDown.toNat < 2 ^ 63 ∧
    statistics.proxyUp.toNat < 2 ^ 63 ∧ statistics.proxyDown.toNat < 2 ^ 63

/-- A default-constructed connection: the clock is read once for each of the two stamps. -/
def ConnectionObject.fresh (created updated : TimePoint) : ConnectionObject :=
  { created := created, updated := updated }

/-- A default-constructed group: `isSubscription` starts with whatever the memory holds. -/
def GroupObject.fresh (created updated : TimePoint) (isSubscription : Bool) : GroupObject :=
  { created := created, updated := updated, subscription_config := { isSubscription } }

variable (p : Platform)

section Members

private theorem saveLoadF_timePoint (y t : TimePoint) :
    (Ty.leaf .timePoint).saveLoadF p y t = t.truncated := by
  have wf : (Ty.leaf .timePoint).Wf := by simp [Ty.Wf]
  have written : ¬(Ty.leaf .timePoint).Omitted t := by simp [Ty.Omitted, Leaf.Omitted]
  rw [Ty.saveLoadF_of_not_omitted wf y written, Ty.saveLoad, Ty.serialize, Ty.deserialize,
    TimePoint.deserialize_serialize]

private theorem saveLoadF_statistics (y : StatisticsObject) {statistics : StatisticsObject}
    (inRange : statistics.InRange) :
    (Ty.struct StatisticsObject.clauses).saveLoadF p y statistics = statistics := by
  have wf : (Ty.struct StatisticsObject.clauses).Wf := by simp [Ty.Wf]
  have exact : (Ty.struct StatisticsObject.clauses).Exact := by simp [Ty.Exact]
  have blank : (Ty.struct StatisticsObject.clauses).Blank y := by
    simp [Ty.Blank, Clauses.Blank, Leaf.Blank, StatisticsObject.clauses]
  have carried : (Ty.struct StatisticsObject.clauses).Carried statistics := by
    simpa [Ty.Carried, Clauses.Carried, Leaf.Carried, StatisticsObject.clauses,
      StatisticsObject.InRange] using inRange
  exact Ty.saveLoadF_eq p wf exact blank carried

private theorem restores_tags : (Ty.set (.leaf .string) "").Restores ∅ := by
  simp [Ty.Restores, Ty.Wf, Ty.AtDefaults, Ty.Exact, Ty.Blank, Leaf.Blank, Ty.Carried,
    Leaf.Carried]

private theorem restores_connections : (Ty.list (.leaf (.id .ConnectionId)) {}).Restores [] := by
  simp [Ty.Restores, Ty.Wf, Ty.AtDefaults, Ty.Exact, Ty.Blank, Leaf.Blank, Ty.Carried,
    Leaf.Carried]

private theorem restores_subscriptionConfig (isSubscription : Bool) :
    (Ty.struct SubscriptionConfigObject.clauses).Restores { isSubscription } := by
  rw [Ty.Restores]
  refine ⟨by simp [Ty.Wf], by simp [Ty.Exact], ?_, ?_⟩
  · simp [Ty.Blank, Clauses.Blank, Leaf.Blank, SubscriptionConfigObject.clauses, stringListTy,
      BaseTaggedObject.clauses]
  · intro x
    simp [Ty.Carried, Clauses.Carried, Leaf.Carried, SubscriptionConfigObject.clauses,
      stringListTy, BaseTaggedObject.clauses]

attribute [local simp] Clauses.Reloaded Ty.Restores.saveLoadF_eq Ty.Restores.loadJson_eq
  saveLoadF_timePoint restores_tags restores_connections restores_subscriptionConfig

private theorem loadJson_baseConfig (created updated : TimePoint) (x : BaseConfigTaggedObject) :
    BaseConfigTaggedObject.clauses.loadJson p
        (some (.object (BaseConfigTaggedObject.clauses.toJson p x))) { created, updated } =
      { x with created := x.created.truncated, updated := x.updated.truncated } := by
  have reloaded := Clauses.reloaded p BaseConfigTaggedObject.clauses_regular.2
    { created, updated } x
  generalize BaseConfigTaggedObject.clauses.loadJson p
    (some (.object (BaseConfigTaggedObject.clauses.toJson p x))) { created, updated } = z
    at reloaded ⊢
  cases z
  cases x
  simp [BaseConfigTaggedObject.clauses] at reloaded ⊢
  tauto

theorem BaseConfigTaggedObject.timestamps_kept (created updated : TimePoint)
    (x : BaseConfigTaggedObject) :
    let loaded := clauses.loadJson p (some (.object (clauses.toJson p x))) { created, updated }
    loaded.created.Near x.created ∧ loaded.updated.Near x.updated ∧
      (x.created ≤ x.updated → loaded.created ≤ loaded.updated) := by
  intro loaded
  have restored : loaded =
      { x with created := x.created.truncated, updated := x.updated.truncated } :=
    loadJson_baseConfig p created updated x
  rw [restored]
  exact ⟨x.created.near_truncated, x.updated.near_truncated, TimePoint.truncated_le_truncated⟩

theorem ConnectionObject.loadJson_toJson (created updated : TimePoint) (x : ConnectionObject)
    (inRange : x.statistics.InRange) :
    clauses.loadJson p (some (.object (clauses.toJson p x))) (fresh created updated) =
      { x with
        created := x.created.truncated
        updated := x.updated.truncated
        last_connected := x.last_connected.truncated
        _group_ref := 0 } := by
  have reloaded := Clauses.reloaded p clauses_regular.2 (fresh created updated) x
  have apart : clauses.Apart groupRef := by
    simp [clauses, groupRef, Clauses.Apart, Lens.Apart]
  have kept := clauses.get_loadJson_of_apart p apart (some (.object (clauses.toJson p x)))
    (fresh created updated)
  generalize clauses.loadJson p (some (.object (clauses.toJson p x))) (fresh created updated) = z
    at reloaded kept ⊢
  cases z
  cases x
  simp [clauses, fresh, groupRef, loadJson_baseConfig, saveLoadF_statistics p _ inRange]
    at reloaded kept ⊢
  tauto

theorem GroupObject.loadJson_toJson (created updated : TimePoint) (isSubscription : Bool)
    (x : GroupObject) :
    clauses.loadJson p (some (.object (clauses.toJson p x)))
        (fresh created updated isSubscription) =
      { x with created := x.created.truncated, updated := x.updated.truncated } := by
  have reloaded := Clauses.reloaded p clauses_regular.2 (fresh created updated isSubscription) x
  generalize clauses.loadJson p (some (.object (clauses.toJson p x)))
    (fresh created updated isSubscription) = z at reloaded ⊢
  cases z
  cases x
  simp [clauses, fresh, loadJson_baseConfig] at reloaded ⊢
  tauto

end Members

/-- A connection or a group loaded into a fresh object comes back whole but for the fractions of
a second, whatever the clock and the memory put into the fresh object and in whatever order
the tags were written. -/
theorem connection_and_group_restored (created updated : TimePoint) (isSubscription : Bool) :
    (∀ x : ConnectionObject, x.statistics.InRange →
      ConnectionObject.clauses.loadJson p
          (some (.object (ConnectionObject.clauses.toJson p x))) (.fresh created updated) =
        { x with
          created := x.created.truncated
          updated := x.updated.truncated
          last_connected := x.last_connected.truncated
          _group_ref := 0 }) ∧
    ∀ x : GroupObject,
      GroupObject.clauses.loadJson p (some (.object (GroupObject.clauses.toJson p x)))
          (.fresh created updated isSubscription) =
        { x with created := x.created.truncated, updated := x.updated.truncated } := by
  constructor
  · intro x inRange
    exact ConnectionObject.loadJson_toJson p created updated x inRange
  · intro x
    exact GroupObject.loadJson_toJson p created updated isSubscription x

/-- A tagged connection with counters, loaded half a second later than it was created. -/
theorem tagged_connection_restored :
    (ConnectionObject.clauses.loadJson .reference
      (some (.object (ConnectionObject.clauses.toJson .reference
        { created := ⟨1500000000⟩, updated := ⟨-1⟩, tags := {"a", "b"}
          statistics := { directUp := 7 } })))
      (.fresh ⟨2000000000⟩ ⟨2000000000⟩)).tags = {"a", "b"} := by
  have restored := (connection_and_group_restored .reference ⟨2000000000⟩ ⟨2000000000⟩ true).1
    { created := ⟨1500000000⟩, updated := ⟨-1⟩, tags := {"a", "b"}
      statistics := { directUp := 7 } }
    (by simp [StatisticsObject.InRange])
  rw [restored]

end QvPlugin.Common
