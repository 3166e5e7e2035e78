import QvPlugin.Common.WellFormed
import QvPlugin.Utils.Reload

set_option autoImplicit false
set_option relaxedAutoImplicit false

namespace QvPlugin.Common

open Lib Qt Utils

/-- The struct types of the interface that have a `QJS_JSON`. -/
inductive StructType where
  | ProfileId
  | StatisticsObject
  | BaseTaggedObject
  | BaseConfigTaggedObject
  | ConnectionObject
  | SubscriptionConfigObject
  | GroupObject
  | PortRange
  | RuleObject
  | RoutingObject
  | MultiplexerObject
  | IOConnectionSettings
  | InboundObject
  | BalancerSettings
  | ChainSettings
  | OutboundObject
  | BasicDNSServerObject
  | BasicDNSObject
  | ProfileContent

namespace StructType

def carrier : StructType → Type
  | ProfileId => Common.ProfileId
  | StatisticsObject => Common.StatisticsObject
  | BaseTaggedObject => Common.BaseTaggedObject
  | BaseConfigTaggedObject => Common.BaseConfigTaggedObject
  | ConnectionObject => Common.ConnectionObject
  | SubscriptionConfigObject => Common.SubscriptionConfigObject
  | GroupObject => Common.GroupObject
  | PortRange => Common.PortRange
  | RuleObject => Common.RuleObject
  | RoutingObject => Common.RoutingObject
  | MultiplexerObject => Common.MultiplexerObject
  | IOConnectionSettings => Common.IOConnectionSettings
  | InboundObject => Common.InboundObject
  | BalancerSettings => Common.BalancerSettings
  | ChainSettings => Common.ChainSettings
  | OutboundObject => Common.OutboundObject
  | BasicDNSServerObject => Common.BasicDNSServerObject
  | BasicDNSObject => Common.BasicDNSObject
  | ProfileContent => Common.ProfileContent

def clauses : (T : StructType) → Clauses T.carrier
  | ProfileId => Common.ProfileId.clauses
  | StatisticsObject => Common.StatisticsObject.clauses
  | BaseTaggedObject => Common.BaseTaggedObject.clauses
  | BaseConfigTaggedObject => Common.BaseConfigTaggedObject.clauses
  | ConnectionObject => Common.ConnectionObject.clauses
  | SubscriptionConfigObject => Common.SubscriptionConfigObject.clauses
  | GroupObject => Common.GroupObject.clauses
  | PortRange => Common.PortRange.clauses
  | RuleObject => Common.RuleObject.clauses
  | RoutingObject => Common.RoutingObject.clauses
  | MultiplexerObject => Common.MultiplexerObject.clauses
  | IOConnectionSettings => Common.IOConnectionSettings.clauses
  | InboundObject => Common.InboundObject.clauses
  | BalancerSettings => Common.BalancerSettings.clauses
  | ChainSettings => Common.ChainSettings.clauses
  | OutboundObject => Common.OutboundObject.clauses
  | BasicDNSServerObject => Common.BasicDNSServerObject.clauses
  | BasicDNSObject => Common.BasicDNSObject.clauses
  | ProfileContent => Common.ProfileContent.clauses

theorem clauses_wf (T : StructType) : T.clauses.Wf := by
  cases T with
  | ProfileId => exact Common.ProfileId.clauses_regular.2
  | StatisticsObject => exact Common.StatisticsObject.clauses_regular.2
  | BaseTaggedObject => exact Common.BaseTaggedObject.clauses_regular.2.1
  | BaseConfigTaggedObject => exact Common.BaseConfigTaggedObject.clauses_regular.2
  | ConnectionObject => exact Common.ConnectionObject.clauses_regular.2
  | SubscriptionConfigObject => exact Common.SubscriptionConfigObject.clauses_regular.2
  | GroupObject => exact Common.GroupObject.clauses_regular.2
  | PortRange => exact Common.PortRange.clauses_regular.2.1
  | RuleObject => exact Common.RuleObject.clauses_regular.2.1
  | RoutingObject => exact Common.RoutingObject.clauses_regular.2.1
  | MultiplexerObject => exact Common.MultiplexerObject.clauses_regular.2.1
  | IOConnectionSettings => exact Common.IOConnectionSettings.clauses_regular.2.1
  | InboundObject => exact Common.InboundObject.clauses_regular.2.1
  | BalancerSettings => exact Common.BalancerSettings.clauses_regular.2.1
  | ChainSettings => exact Common.ChainSettings.clauses_regular.2.1
  | OutboundObject => exact Common.OutboundObject.clauses_regular.2.1
  | BasicDNSServerObject => exact Common.BasicDNSServerObject.clauses_regular.2
  | BasicDNSObject => exact Common.BasicDNSObject.clauses_regular.2
  | ProfileContent => exact Common.ProfileContent.clauses_regular.2.1

end StructType

/-- Two targets agree after the same load exactly when they held the same wherever the load
wrote nothing. -/
theorem reload_agree_iff (T : StructType) (p : Platform) (x y₁ y₂ : T.carrier) :
    T.clauses.Agree (T.clauses.loadJson p (some (.object (T.clauses.toJson p x))) y₁)
        (T.clauses.loadJson p (some (.object (T.clauses.toJson p x))) y₂) ↔
      T.clauses.Settles x y₁ y₂ := by
  have first := Clauses.reloaded p T.clauses_wf y₁ x
  have second := Clauses.reloaded p T.clauses_wf y₂ x
  exact T.clauses.agree_iff_of_reloaded p T.clauses_wf first second

/-- Options that were emptied and saved leave the old options of the target in place. -/
theorem emptied_options_leave_old_options :
    ¬BaseTaggedObject.clauses.Agree
      (BaseTaggedObject.clauses.loadJson .reference
        (some (.object (BaseTaggedObject.clauses.toJson .reference { name := "x" }))) {})
      (BaseTaggedObject.clauses.loadJson .reference
        (some (.object (BaseTaggedObject.clauses.toJson .reference { name := "x" })))
        { options := KeyMap.set ∅ "a" (.number 1) }) := by
  intro agree
  have options := congrArg (fun o : QJsonObject => o.contains "a") agree.2.1
  have first : (BaseTaggedObject.clauses.loadJson .reference
      (some (.object (BaseTaggedObject.clauses.toJson .reference { name := "x" })))
      {}).options.contains "a" = false := rfl
  have second : (BaseTaggedObject.clauses.loadJson .reference
      (some (.object (BaseTaggedObject.clauses.toJson .reference { name := "x" })))
      { options := KeyMap.set ∅ "a" (.number 1) }).options.contains "a" = true := rfl
  exact Bool.false_ne_true (first.symm.trans (options.trans second))

end QvPlugin.Common
