import QvPlugin.Common.CommonTypes
import QvPlugin.Utils.FreshTarget

/-!
Each struct of the interface has distinct keys and separate members. Where a struct lists all
of its members, that is recorded too: what agrees on them is equal, and a fresh one becomes
whatever is saved.
-/

set_option autoImplicit false
set_option relaxedAutoImplicit false

namespace QvPlugin.Common

open Lib Qt Utils

attribute [local simp] Ty.Wf Clauses.Wf Ty.OnlyFB Clauses.OnlyFB Ty.Plain Clauses.Plain Leaf.Plain
  Ty.Exact Clauses.Exact Clauses.SameMembers Ty.AtDefaults Clauses.atDefaults_of_onlyFB
  Clauses.keys Clauses.Apart Lens.Apart

@[simp] theorem stringListTy_regular :
    stringListTy.OnlyFB ∧ stringListTy.Wf ∧ stringListTy.Plain ∧ stringListTy.Exact := by
  simp [stringListTy]

@[simp] theorem ProfileId.clauses_regular :
    ProfileId.clauses.OnlyFB ∧ ProfileId.clauses.Wf := by
  simp [ProfileId.clauses]

@[simp] theorem StatisticsObject.clauses_regular :
    StatisticsObject.clauses.OnlyFB ∧ StatisticsObject.clauses.Wf := by
  simp [StatisticsObject.clauses]

@[simp] theorem StatisticsObject.clauses_exact : StatisticsObject.clauses.Exact ∧
    ∀ x y, StatisticsObject.clauses.SameMembers x y ↔ x = y := by
  refine ⟨by simp [StatisticsObject.clauses], fun x y => ?_⟩
  cases x
  cases y
  simp [StatisticsObject.clauses]

@[simp] theorem BaseTaggedObject.clauses_keys :
    BaseTaggedObject.clauses.keys = ["name", "options"] := by
  simp [BaseTaggedObject.clauses]

@[simp] theorem BaseTaggedObject.clauses_regular : BaseTaggedObject.clauses.OnlyFB ∧
    BaseTaggedObject.clauses.Wf ∧ BaseTaggedObject.clauses.Plain := by
  simp [BaseTaggedObject.clauses]

@[simp] theorem BaseTaggedObject.clauses_exact : BaseTaggedObject.clauses.Exact ∧
    ∀ x y, BaseTaggedObject.clauses.SameMembers x y ↔ x = y := by
  refine ⟨by simp [BaseTaggedObject.clauses], fun x y => ?_⟩
  cases x
  cases y
  simp [BaseTaggedObject.clauses]

@[simp] theorem BaseConfigTaggedObject.clauses_keys :
    BaseConfigTaggedObject.clauses.keys = ["created", "updated", "name", "options"] := by
  simp [BaseConfigTaggedObject.clauses]

@[simp] theorem BaseConfigTaggedObject.clauses_regular :
    BaseConfigTaggedObject.clauses.OnlyFB ∧ BaseConfigTaggedObject.clauses.Wf := by
  simp [BaseConfigTaggedObject.clauses]

@[simp] theorem ConnectionObject.clauses_regular :
    ConnectionObject.clauses.OnlyFB ∧ ConnectionObject.clauses.Wf := by
  simp [ConnectionObject.clauses]

@[simp] theorem SubscriptionConfigObject.clauses_regular :
    SubscriptionConfigObject.clauses.OnlyFB ∧ SubscriptionConfigObject.clauses.Wf := by
  simp [SubscriptionConfigObject.clauses]

@[simp] theorem SubscriptionConfigObject.clauses_exact : SubscriptionConfigObject.clauses.Exact ∧
    ∀ x y, SubscriptionConfigObject.clauses.SameMembers x y ↔ x = y := by
  refine ⟨by simp [SubscriptionConfigObject.clauses], fun x y => ?_⟩
  cases x
  cases y
  simp [SubscriptionConfigObject.clauses]
  tauto

@[simp] theorem GroupObject.clauses_regular :
    GroupObject.clauses.OnlyFB ∧ GroupObject.clauses.Wf := by
  simp [GroupObject.clauses]

@[simp] theorem PortRange.clauses_regular :
    PortRange.clauses.OnlyFB ∧ PortRange.clauses.Wf ∧ PortRange.clauses.Plain := by
  simp [PortRange.clauses]

@[simp] theorem PortRange.clauses_exact : PortRange.clauses.Exact ∧
    ∀ x y, PortRange.clauses.SameMembers x y ↔ x = y := by
  refine ⟨by simp [PortRange.clauses], fun x y => ?_⟩
  cases x
  cases y
  simp [PortRange.clauses]

@[simp] theorem RuleObject.clauses_regular :
    RuleObject.clauses.OnlyFB ∧ RuleObject.clauses.Wf ∧ RuleObject.clauses.Plain := by
  simp [RuleObject.clauses]

@[simp] theorem RoutingObject.clauses_regular :
    RoutingObject.clauses.OnlyFB ∧ RoutingObject.clauses.Wf ∧ RoutingObject.clauses.Plain := by
  simp [RoutingObject.clauses]

@[simp] theorem MultiplexerObject.clauses_regular : MultiplexerObject.clauses.OnlyFB ∧
    MultiplexerObject.clauses.Wf ∧ MultiplexerObject.clauses.Plain := by
  simp [MultiplexerObject.clauses]

@[simp] theorem MultiplexerObject.clauses_exact : MultiplexerObject.clauses.Exact ∧
    ∀ x y, MultiplexerObject.clauses.SameMembers x y ↔ x = y := by
  refine ⟨by simp [MultiplexerObject.clauses], fun x y => ?_⟩
  cases x
  cases y
  simp [MultiplexerObject.clauses]

@[simp] theorem IOConnectionSettings.clauses_regular : IOConnectionSettings.clauses.OnlyFB ∧
    IOConnectionSettings.clauses.Wf ∧ IOConnectionSettings.clauses.Plain := by
  simp [IOConnectionSettings.clauses]

@[simp] theorem IOConnectionSettings.clauses_exact : IOConnectionSettings.clauses.Exact ∧
    ∀ x y, IOConnectionSettings.clauses.SameMembers x y ↔ x = y := by
  refine ⟨by simp [IOConnectionSettings.clauses], fun x y => ?_⟩
  cases x
  cases y
  simp [IOConnectionSettings.clauses]

@[simp] theorem InboundObject.clauses_regular : InboundObject.clauses.OnlyFB ∧
    InboundObject.clauses.Wf ∧ InboundObject.clauses.Plain := by
  simp [InboundObject.clauses]

@[simp] theorem InboundObject.clauses_exact : InboundObject.clauses.Exact ∧
    ∀ x y, InboundObject.clauses.SameMembers x y ↔ x = y := by
  refine ⟨by simp [InboundObject.clauses], fun x y => ?_⟩
  cases x
  cases y
  simp [InboundObject.clauses, and_comm]

@[simp] theorem BalancerSettings.clauses_regular :
    BalancerSettings.clauses.OnlyFB ∧ BalancerSettings.clauses.Wf ∧ BalancerSettings.clauses.Plain := by
  simp [BalancerSettings.clauses]

@[simp] theorem ChainSettings.clauses_regular : ChainSettings.clauses.OnlyFB ∧
    ChainSettings.clauses.Wf ∧ ChainSettings.clauses.Plain := by
  simp [ChainSettings.clauses]

@[simp] theorem ChainSettings.clauses_exact : ChainSettings.clauses.Exact ∧
    ∀ x y, ChainSettings.clauses.SameMembers x y ↔ x = y := by
  refine ⟨by simp [ChainSettings.clauses], fun x y => ?_⟩
  cases x
  cases y
  simp [ChainSettings.clauses]
  tauto

@[simp] theorem OutboundObject.clauses_regular :
    OutboundObject.clauses.OnlyFB ∧ OutboundObject.clauses.Wf ∧ OutboundObject.clauses.Plain := by
  simp [OutboundObject.clauses]

@[simp] theorem BasicDNSServerObject.clauses_regular :
    BasicDNSServerObject.clauses.OnlyFB ∧ BasicDNSServerObject.clauses.Wf := by
  simp [BasicDNSServerObject.clauses]

@[simp] theorem BasicDNSObject.clauses_regular :
    BasicDNSObject.clauses.OnlyFB ∧ BasicDNSObject.clauses.Wf := by
  simp [BasicDNSObject.clauses]

@[simp] theorem ProfileContent.clauses_regular :
    ProfileContent.clauses.OnlyFB ∧ ProfileContent.clauses.Wf ∧ ProfileContent.clauses.Plain := by
  simp [ProfileContent.clauses]

section Restores

attribute [local simp] Ty.Restores Ty.Wf Ty.Exact Ty.AtDefaults Ty.Blank Leaf.Blank
  Clauses.Blank Clauses.atDefaults_of_onlyFB Ty.Carried Leaf.Carried Clauses.carried_of_plain

@[simp] theorem restores_bool (y : Bool) : (Ty.leaf .bool).Restores y := by simp

@[simp] theorem restores_int (y : Int32) : (Ty.leaf .int).Restores y := by simp

@[simp] theorem restores_float (y : ℚ) : (Ty.leaf .float).Restores y := by simp

@[simp] theorem restores_string (y : QString) : (Ty.leaf .string).Restores y := by simp

@[simp] theorem restores_enum {E : Type} (repr : E ≃ Int32) (y : E) :
    (Ty.leaf (.enum repr)).Restores y := by simp

@[simp] theorem restores_id {tag : IdTag} (y : IDType tag) : (Ty.leaf (.id tag)).Restores y := by
  simp

@[simp] theorem restores_object : (Ty.leaf .object).Restores ∅ := by simp

@[simp] theorem restores_safeJson (tag : SafeJsonTag) :
    (Ty.leaf (.safeJson tag)).Restores {} := by simp

@[simp] theorem restores_stringList : stringListTy.Restores [] := by simp [stringListTy]

@[simp] theorem restores_portRange : (Ty.struct PortRange.clauses).Restores {} :=
  Clauses.restores_struct PortRange.clauses_regular.2.1 PortRange.clauses_regular.2.2
    PortRange.clauses_exact (by simp [PortRange.clauses])

@[simp] theorem restores_ioConnectionSettings :
    (Ty.struct IOConnectionSettings.clauses).Restores {} :=
  Clauses.restores_struct IOConnectionSettings.clauses_regular.2.1
    IOConnectionSettings.clauses_regular.2.2 IOConnectionSettings.clauses_exact
    (by simp [IOConnectionSettings.clauses, PortRange.clauses, MultiplexerObject.clauses])

@[simp] theorem restores_baseTaggedObject : (Ty.struct BaseTaggedObject.clauses).Restores {} :=
  Clauses.restores_struct BaseTaggedObject.clauses_regular.2.1
    BaseTaggedObject.clauses_regular.2.2 BaseTaggedObject.clauses_exact
    (by simp [BaseTaggedObject.clauses])

@[simp] theorem restores_chainSettings : (Ty.struct ChainSettings.clauses).Restores {} :=
  Clauses.restores_struct ChainSettings.clauses_regular.2.1
    ChainSettings.clauses_regular.2.2 ChainSettings.clauses_exact
    (by simp [ChainSettings.clauses, BaseTaggedObject.clauses, stringListTy])

@[simp] theorem restores_inboundList :
    (Ty.list (.struct InboundObject.clauses) {}).Restores [] := by
  have inbound : (Ty.struct InboundObject.clauses).Restores {} :=
    Clauses.restores_struct InboundObject.clauses_regular.2.1
      InboundObject.clauses_regular.2.2 InboundObject.clauses_exact
      (by simp [InboundObject.clauses, IOConnectionSettings.clauses, PortRange.clauses,
        MultiplexerObject.clauses, BaseTaggedObject.clauses])
  obtain ⟨wf, exact, blank, carried⟩ := inbound
  have defaults : (Ty.struct InboundObject.clauses).AtDefaults {} := by simp
  rw [Ty.Restores, Ty.Wf, Ty.Exact, Ty.Blank]
  refine ⟨⟨wf, defaults⟩, exact, ⟨rfl, blank⟩, ?_⟩
  intro xs
  rw [Ty.Carried]
  exact fun x _ => carried x

end Restores

end QvPlugin.Common
