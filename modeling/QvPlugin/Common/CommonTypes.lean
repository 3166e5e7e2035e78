import QvPlugin.Utils.ClauseSpec

/-!
The structs of the plugin interface with the clauses of their `QJS_JSON`. A base class is a
parent structure. Members without a default here start with what the run or the memory gives:
the current time, or an uninitialised `bool`.
-/

set_option autoImplicit false
set_option relaxedAutoImplicit false

namespace QvPlugin.Common

open Lib Qt Utils

abbrev GroupId := IDType .GroupId
abbrev ConnectionId := IDType .ConnectionId
abbrev RoutingId := IDType .RoutingId
abbrev KernelId := IDType .KernelId
abbrev SubscriptionProviderId := IDType .SubscriptionProviderId

abbrev IOProtocolSettings := SafeJsonType .IOProtocolSettings
abbrev IOStreamSettings := SafeJsonType .IOStreamSettings
abbrev RuleExtraSettings := SafeJsonType .RuleExtraSettings
abbrev BalancerSelectorSettings := SafeJsonType .BalancerSelectorSettings
abbrev SubscriptionProviderOptions := SafeJsonType .SubscriptionProviderOptions

def LATENCY_TEST_VALUE_ERROR : Int32 := 99999
def LATENCY_TEST_VALUE_NODATA : Int32 := LATENCY_TEST_VALUE_ERROR - 1

abbrev QStringList := List QString

/-- `QList<QString>`, whose elements start empty. -/
def stringListTy : Ty QStringList := .list (.leaf .string) ""

structure ProfileId where
  connectionId : ConnectionId := {}
  groupId : GroupId := {}

def ProfileId.clauses : Clauses ProfileId :=
  .F "connectionId" { get := connectionId, set := fun a s => { s with connectionId := a } }
    (.leaf (.id _)) <|
  .F "groupId" { get := groupId, set := fun a s => { s with groupId := a } } (.leaf (.id _)) .nil

structure StatisticsObject where
  directUp : UInt64 := 0
  directDown : UInt64 := 0
  proxyUp : UInt64 := 0
  proxyDown : UInt64 := 0

def StatisticsObject.clauses : Clauses StatisticsObject :=
  .F "directUp" { get := directUp, set := fun a s => { s with directUp := a } }
    (.leaf .ulonglong) <|
  .F "directDown" { get := directDown, set := fun a s => { s with directDown := a } }
    (.leaf .ulonglong) <|
  .F "proxyUp" { get := proxyUp, set := fun a s => { s with proxyUp := a } }
    (.leaf .ulonglong) <|
  .F "proxyDown" { get := proxyDown, set := fun a s => { s with proxyDown := a } }
    (.leaf .ulonglong) .nil

structure BaseTaggedObject where
  name : QString := ""
  options : QJsonObject := ∅

def BaseTaggedObject.clauses : Clauses BaseTaggedObject :=
  .F "name" { get := name, set := fun a s => { s with name := a } } (.leaf .string) <|
  .F "options" { get := options, set := fun a s => { s with options := a } } (.leaf .object) .nil

structure BaseConfigTaggedObject extends BaseTaggedObject where
  created : TimePoint
  updated : TimePoint

def BaseConfigTaggedObject.clauses : Clauses BaseConfigTaggedObject :=
  .F "created" { get := created, set := fun a s => { s with created := a } } (.leaf .timePoint) <|
  .F "updated" { get := updated, set := fun a s => { s with updated := a } } (.leaf .timePoint) <|
  .B { get := toBaseTaggedObject, set := fun b s => { s with toBaseTaggedObject := b } }
    BaseTaggedObject.clauses .nil

structure ConnectionObject extends BaseConfigTaggedObject where
  last_connected : TimePoint := {}
  tags : Finset QString := ∅
  statistics : StatisticsObject := {}
  latency : Int32 := LATENCY_TEST_VALUE_NODATA
  _group_ref : Int32 := 0

def ConnectionObject.clauses : Clauses ConnectionObject :=
  .F "last_connected" { get := last_connected, set := fun a s => { s with last_connected := a } }
    (.leaf .timePoint) <|
  .F "tags" { get := tags, set := fun a s => { s with tags := a } } (.set (.leaf .string) "") <|
  .F "statistics" { get := statistics, set := fun a s => { s with statistics := a } }
    (.struct StatisticsObject.clauses) <|
  .F "latency" { get := latency, set := fun a s => { s with latency := a } } (.leaf .int) <|
  .B { get := toBaseConfigTaggedObject, set := fun b s => { s with toBaseConfigTaggedObject := b } }
    BaseConfigTaggedObject.clauses .nil

/-- The reference count, which is not saved. -/
def ConnectionObject.groupRef : Lens ConnectionObject Int32 where
  get := _group_ref
  set a s := { s with _group_ref := a }

structure FilterRelation where
  int : Int32
  deriving DecidableEq

namespace FilterRelation

def RELATION_AND : FilterRelation := ⟨0⟩
def RELATION_OR : FilterRelation := ⟨1⟩

def repr : FilterRelation ≃ Int32 := ⟨int, mk, fun _ => rfl, fun _ => rfl⟩

end FilterRelation

structure SubscriptionConfigObject extends BaseTaggedObject where
  isSubscription : Bool
  address : QString := ""
  providerId : SubscriptionProviderId := {}
  providerSettings : SubscriptionProviderOptions := {}
  updateInterval : ℚ := 10
  includeKeywords : List QString := []
  includeRelation : FilterRelation := .RELATION_OR
  excludeKeywords : List QString := []
  excludeRelation : FilterRelation := .RELATION_AND

def SubscriptionConfigObject.clauses : Clauses SubscriptionConfigObject :=
  .F "isSubscription" { get := isSubscription, set := fun a s => { s with isSubscription := a } }
    (.leaf .bool) <|
  .F "address" { get := address, set := fun a s => { s with address := a } } (.leaf .string) <|
  .F "providerId" { get := providerId, set := fun a s => { s with providerId := a } }
    (.leaf (.id _)) <|
  .F "providerSettings"
    { get := providerSettings, set := fun a s => { s with providerSettings := a } }
    (.leaf (.safeJson _)) <|
  .F "updateInterval" { get := updateInterval, set := fun a s => { s with updateInterval := a } }
    (.leaf .float) <|
  .F "includeKeywords" { get := includeKeywords, set := fun a s => { s with includeKeywords := a } }
    stringListTy <|
  .F "excludeKeywords" { get := excludeKeywords, set := fun a s => { s with excludeKeywords := a } }
    stringListTy <|
  .F "includeRelation" { get := includeRelation, set := fun a s => { s with includeRelation := a } }
    (.leaf (.enum FilterRelation.repr)) <|
  .F "excludeRelation" { get := excludeRelation, set := fun a s => { s with excludeRelation := a } }
    (.leaf (.enum FilterRelation.repr)) <|
  .B { get := toBaseTaggedObject, set := fun b s => { s with toBaseTaggedObject := b } }
    BaseTaggedObject.clauses .nil

structure GroupObject extends BaseConfigTaggedObject where
  connections : List ConnectionId := []
  route_id : RoutingId := {}
  subscription_config : SubscriptionConfigObject

def GroupObject.clauses : Clauses GroupObject :=
  .F "connections" { get := connections, set := fun a s => { s with connections := a } }
    (.list (.leaf (.id _)) {}) <|
  .F "route_id" { get := route_id, set := fun a s => { s with route_id := a } } (.leaf (.id _)) <|
  .F "subscription_config"
    { get := subscription_config, set := fun a s => { s with subscription_config := a } }
    (.struct SubscriptionConfigObject.clauses) <|
  .B { get := toBaseConfigTaggedObject, set := fun b s => { s with toBaseConfigTaggedObject := b } }
    BaseConfigTaggedObject.clauses .nil

structure PortRange where
  «from» : Int32 := 0
  «to» : Int32 := 0

def PortRange.clauses : Clauses PortRange :=
  .F "from" { get := «from», set := fun a s => { s with «from» := a } } (.leaf .int) <|
  .F "to" { get := «to», set := fun a s => { s with «to» := a } } (.leaf .int) .nil

structure RuleObject extends BaseTaggedObject where
  enabled : Bool := true
  inboundTags : QStringList := []
  outboundTag : QString := ""
  sourceAddresses : QStringList := []
  targetDomains : QStringList := []
  targetIPs : QStringList := []
  sourcePort : PortRange := {}
  targetPort : PortRange := {}
  networks : QStringList := []
  protocols : QStringList := []
  processes : QStringList := []
  extraSettings : RuleExtraSettings := {}

-- There is no `B(BaseTaggedObject)` here.
def RuleObject.clauses : Clauses RuleObject :=
  .F "enabled" { get := enabled, set := fun a s => { s with enabled := a } } (.leaf .bool) <|
  .F "inboundTags" { get := inboundTags, set := fun a s => { s with inboundTags := a } }
    stringListTy <|
  .F "outboundTag" { get := outboundTag, set := fun a s => { s with outboundTag := a } }
    (.leaf .string) <|
  .F "sourceAddresses" { get := sourceAddresses, set := fun a s => { s with sourceAddresses := a } }
    stringListTy <|
  .F "targetDomains" { get := targetDomains, set := fun a s => { s with targetDomains := a } }
    stringListTy <|
  .F "targetIPs" { get := targetIPs, set := fun a s => { s with targetIPs := a } } stringListTy <|
  .F "sourcePort" { get := sourcePort, set := fun a s => { s with sourcePort := a } }
    (.struct PortRange.clauses) <|
  .F "targetPort" { get := targetPort, set := fun a s => { s with targetPort := a } }
    (.struct PortRange.clauses) <|
  .F "networks" { get := networks, set := fun a s => { s with networks := a } } stringListTy <|
  .F "protocols" { get := protocols, set := fun a s => { s with protocols := a } } stringListTy <|
  .F "processes" { get := processes, set := fun a s => { s with processes := a } } stringListTy <|
  .F "extraSettings" { get := extraSettings, set := fun a s => { s with extraSettings := a } }
    (.leaf (.safeJson _)) .nil

/-- The base class, which the clauses do not list. -/
def RuleObject.inherited : Lens RuleObject BaseTaggedObject where
  get := toBaseTaggedObject
  set b s := { s with toBaseTaggedObject := b }

structure RoutingObject where
  overrideRules : Bool := false
  rules : List RuleObject := []
  overrideDNS : Bool := false
  dns : QJsonObject := ∅
  fakedns : QJsonObject := ∅
  extraOptions : QJsonObject := ∅

def RoutingObject.clauses : Clauses RoutingObject :=
  .F "overrideRules" { get := overrideRules, set := fun a s => { s with overrideRules := a } }
    (.leaf .bool) <|
  .F "rules" { get := rules, set := fun a s => { s with rules := a } }
    (.list (.struct RuleObject.clauses) {}) <|
  .F "overrideDNS" { get := overrideDNS, set := fun a s => { s with overrideDNS := a } }
    (.leaf .bool) <|
  .F "dns" { get := dns, set := fun a s => { s with dns := a } } (.leaf .object) <|
  .F "fakedns" { get := fakedns, set := fun a s => { s with fakedns := a } } (.leaf .object) <|
  .F "extraOptions" { get := extraOptions, set := fun a s => { s with extraOptions := a } }
    (.leaf .object) .nil

structure MultiplexerObject where
  enabled : Bool := false
  concurrency : Int32 := 8

def MultiplexerObject.clauses : Clauses MultiplexerObject :=
  .F "enabled" { get := enabled, set := fun a s => { s with enabled := a } } (.leaf .bool) <|
  .F "concurrency" { get := concurrency, set := fun a s => { s with concurrency := a } }
    (.leaf .int) .nil

structure IOConnectionSettings where
  protocol : QString := ""
  address : QString := ""
  port : PortRange := {}
  protocolSettings : IOProtocolSettings := {}
  streamSettings : IOStreamSettings := {}
  muxSettings : MultiplexerObject := {}

def IOConnectionSettings.clauses : Clauses IOConnectionSettings :=
  .F "protocol" { get := protocol, set := fun a s => { s with protocol := a } } (.leaf .string) <|
  .F "address" { get := address, set := fun a s => { s with address := a } } (.leaf .string) <|
  .F "port" { get := port, set := fun a s => { s with port := a } } (.struct PortRange.clauses) <|
  .F "protocolSettings"
    { get := protocolSettings, set := fun a s => { s with protocolSettings := a } }
    (.leaf (.safeJson _)) <|
  .F "streamSettings" { get := streamSettings, set := fun a s => { s with streamSettings := a } }
    (.leaf (.safeJson _)) <|
  .F "muxSettings" { get := muxSettings, set := fun a s => { s with muxSettings := a } }
    (.struct MultiplexerObject.clauses) .nil

structure InboundObject extends BaseTaggedObject where
  inboundSettings : IOConnectionSettings := {}

def InboundObject.clauses : Clauses InboundObject :=
  .F "inboundSettings" { get := inboundSettings, set := fun a s => { s with inboundSettings := a } }
    (.struct IOConnectionSettings.clauses) <|
  .B { get := toBaseTaggedObject, set := fun b s => { s with toBaseTaggedObject := b } }
    BaseTaggedObject.clauses .nil

structure BalancerSettings extends BaseTaggedObject where
  selectorType : QString := ""
  selectorSettings : BalancerSelectorSettings := {}

-- There is no `B(BaseTaggedObject)` here either.
def BalancerSettings.clauses : Clauses BalancerSettings :=
  .F "selectorType" { get := selectorType, set := fun a s => { s with selectorType := a } }
    (.leaf .string) <|
  .F "selectorSettings"
    { get := selectorSettings, set := fun a s => { s with selectorSettings := a } }
    (.leaf (.safeJson _)) .nil

/-- The base class, which the clauses do not list. -/
def BalancerSettings.inherited : Lens BalancerSettings BaseTaggedObject where
  get := toBaseTaggedObject
  set b s := { s with toBaseTaggedObject := b }

structure ChainSettings extends BaseTaggedObject where
  chaining_port : Int32 := 15490
  chains : QStringList := []

def ChainSettings.clauses : Clauses ChainSettings :=
  .F "chains" { get := chains, set := fun a s => { s with chains := a } } stringListTy <|
  .F "chaining_port" { get := chaining_port, set := fun a s => { s with chaining_port := a } }
    (.leaf .int) <|
  .B { get := toBaseTaggedObject, set := fun b s => { s with toBaseTaggedObject := b } }
    BaseTaggedObject.clauses .nil

structure OutboundObjectType where
  int : Int32
  deriving DecidableEq

namespace OutboundObjectType

def ORIGINAL : OutboundObjectType := ⟨0⟩
def EXTERNAL : OutboundObjectType := ⟨1⟩
def BALANCER : OutboundObjectType := ⟨2⟩
def CHAIN : OutboundObjectType := ⟨3⟩

def repr : OutboundObjectType ≃ Int32 := ⟨int, mk, fun _ => rfl, fun _ => rfl⟩

end OutboundObjectType

structure OutboundObject extends BaseTaggedObject where
  objectType : OutboundObjectType := .ORIGINAL
  kernel : KernelId := {}
  externalId : ConnectionId := {}
  outboundSettings : IOConnectionSettings := {}
  balancerSettings : BalancerSettings := {}
  chainSettings : ChainSettings := {}

def OutboundObject.clauses : Clauses OutboundObject :=
  .F "objectType" { get := objectType, set := fun a s => { s with objectType := a } }
    (.leaf (.enum OutboundObjectType.repr)) <|
  .F "kernel" { get := kernel, set := fun a s => { s with kernel := a } } (.leaf (.id _)) <|
  .F "externalId" { get := externalId, set := fun a s => { s with externalId := a } }
    (.leaf (.id _)) <|
  .F "outboundSettings"
    { get := outboundSettings, set := fun a s => { s with outboundSettings := a } }
    (.struct IOConnectionSettings.clauses) <|
  .F "balancerSettings"
    { get := balancerSettings, set := fun a s => { s with balancerSettings := a } }
    (.struct BalancerSettings.clauses) <|
  .F "chainSettings" { get := chainSettings, set := fun a s => { s with chainSettings := a } }
    (.struct ChainSettings.clauses) <|
  .B { get := toBaseTaggedObject, set := fun b s => { s with toBaseTaggedObject := b } }
    BaseTaggedObject.clauses .nil

structure BasicDNSServerObject where
  address : QString := ""
  port : Int32 := 53

def BasicDNSServerObject.clauses : Clauses BasicDNSServerObject :=
  .F "address" { get := address, set := fun a s => { s with address := a } } (.leaf .string) <|
  .F "port" { get := port, set := fun a s => { s with port := a } } (.leaf .int) .nil

structure BasicDNSObject where
  servers : List BasicDNSServerObject := []
  hosts : KeyMap QString QString := ∅
  extraOptions : QJsonObject := ∅

def BasicDNSObject.clauses : Clauses BasicDNSObject :=
  .F "servers" { get := servers, set := fun a s => { s with servers := a } }
    (.list (.struct BasicDNSServerObject.clauses) {}) <|
  .F "hosts" { get := hosts, set := fun a s => { s with hosts := a } }
    (.map (.leaf .string) "") <|
  .F "extraOptions" { get := extraOptions, set := fun a s => { s with extraOptions := a } }
    (.leaf .object) .nil

structure ProfileContent where
  defaultKernel : KernelId := {}
  inbounds : List InboundObject := []
  outbounds : List OutboundObject := []
  routing : RoutingObject := {}
  extraOptions : QJsonObject := ∅

namespace ProfileContent

def clauses : Clauses ProfileContent :=
  .F "defaultKernel" { get := defaultKernel, set := fun a s => { s with defaultKernel := a } }
    (.leaf (.id _)) <|
  .F "inbounds" { get := inbounds, set := fun a s => { s with inbounds := a } }
    (.list (.struct InboundObject.clauses) {}) <|
  .F "outbounds" { get := outbounds, set := fun a s => { s with outbounds := a } }
    (.list (.struct OutboundObject.clauses) {}) <|
  .F "routing" { get := routing, set := fun a s => { s with routing := a } }
    (.struct RoutingObject.clauses) <|
  .F "extraOptions" { get := extraOptions, set := fun a s => { s with extraOptions := a } }
    (.leaf .object) .nil

def toJson (p : Platform) (profile : ProfileContent) : QJsonObject := clauses.toJson p profile

def fromJson (p : Platform) (o : QJsonObject) : ProfileContent :=
  clauses.loadJson p (some (.object o)) {}

end ProfileContent

end QvPlugin.Common
