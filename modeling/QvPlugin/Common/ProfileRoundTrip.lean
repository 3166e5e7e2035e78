import QvPlugin.Common.WellFormed

/-!
What saving and loading a profile keeps. `RuleObject` and `BalancerSettings` do not list their
base class, so the name and the options they inherit are lost, and nothing else is.
-/

set_option autoImplicit false
set_option relaxedAutoImplicit false

namespace QvPlugin.Common

open Lib Qt Utils

/-- The rule without what it inherits, which no `QJS_JSON` lists for it. -/
def RuleObject.listed (rule : RuleObject) : RuleObject := { rule with toBaseTaggedObject := {} }

def BalancerSettings.listed (balancer : BalancerSettings) : BalancerSettings :=
  { balancer with toBaseTaggedObject := {} }

def OutboundObject.listed (outbound : OutboundObject) : OutboundObject :=
  { outbound with balancerSettings := outbound.balancerSettings.listed }

def RoutingObject.listed (routing : RoutingObject) : RoutingObject :=
  { routing with rules := routing.rules.map RuleObject.listed }

def ProfileContent.listed (profile : ProfileContent) : ProfileContent :=
  { profile with
    outbounds := profile.outbounds.map OutboundObject.listed
    routing := profile.routing.listed }

variable (p : Platform)

section Members

attribute [local simp] Clauses.Reloaded Ty.Restores.saveLoadF_eq Ty.Restores.loadJson_eq
  Clauses.Apart Lens.Apart

theorem RuleObject.saveLoad_eq (rule : RuleObject) :
    (Ty.struct RuleObject.clauses).saveLoad p {} rule = rule.listed := by
  have reloaded := Clauses.reloaded p RuleObject.clauses_regular.2.1 {} rule
  have apart : RuleObject.clauses.Apart inherited := by simp [RuleObject.clauses, inherited]
  have kept := Clauses.get_loadJson_of_apart p RuleObject.clauses apart
    (some (.object (RuleObject.clauses.toJson p rule))) {}
  rw [Ty.saveLoad_struct]
  generalize RuleObject.clauses.loadJson p (some (.object (RuleObject.clauses.toJson p rule))) {} = z
    at reloaded kept ⊢
  cases z
  cases rule
  simp [RuleObject.clauses, RuleObject.listed, inherited] at reloaded kept ⊢
  tauto

theorem BalancerSettings.saveLoad_eq (balancer : BalancerSettings) :
    (Ty.struct BalancerSettings.clauses).saveLoad p {} balancer = balancer.listed := by
  have reloaded := Clauses.reloaded p BalancerSettings.clauses_regular.2.1 {} balancer
  have apart : BalancerSettings.clauses.Apart inherited := by
    simp [BalancerSettings.clauses, inherited]
  have kept := Clauses.get_loadJson_of_apart p BalancerSettings.clauses apart
    (some (.object (BalancerSettings.clauses.toJson p balancer))) {}
  rw [Ty.saveLoad_struct]
  generalize BalancerSettings.clauses.loadJson p
    (some (.object (BalancerSettings.clauses.toJson p balancer))) {} = z at reloaded kept ⊢
  cases z
  cases balancer
  simp [BalancerSettings.clauses, BalancerSettings.listed, inherited] at reloaded kept ⊢
  tauto

private theorem saveLoadF_balancerSettings (balancer : BalancerSettings) :
    (Ty.struct BalancerSettings.clauses).saveLoadF p {} balancer = balancer.listed := by
  have wf : (Ty.struct BalancerSettings.clauses).Wf := by simp [Ty.Wf]
  have written : ¬(Ty.struct BalancerSettings.clauses).Omitted balancer := by
    simp [BalancerSettings.clauses, Ty.Omitted, Clauses.Omitted, Leaf.Omitted]
  rw [Ty.saveLoadF_of_not_omitted wf _ written, BalancerSettings.saveLoad_eq]

theorem OutboundObject.saveLoad_eq (outbound : OutboundObject) :
    (Ty.struct OutboundObject.clauses).saveLoad p {} outbound = outbound.listed := by
  have reloaded := Clauses.reloaded p OutboundObject.clauses_regular.2.1 {} outbound
  rw [Ty.saveLoad_struct]
  generalize OutboundObject.clauses.loadJson p
    (some (.object (OutboundObject.clauses.toJson p outbound))) {} = z at reloaded ⊢
  cases z
  cases outbound
  simp [OutboundObject.clauses, OutboundObject.listed, saveLoadF_balancerSettings] at reloaded ⊢
  tauto

theorem RoutingObject.saveLoad_eq (routing : RoutingObject) :
    (Ty.struct RoutingObject.clauses).saveLoad p {} routing = routing.listed := by
  have reloaded := Clauses.reloaded p RoutingObject.clauses_regular.2.1 {} routing
  have wf : (Ty.list (.struct RuleObject.clauses) {}).Wf := by
    simp [Ty.Wf, Ty.AtDefaults, Clauses.atDefaults_of_onlyFB]
  have rules : (Ty.struct RuleObject.clauses).saveLoad p {} = RuleObject.listed :=
    funext (RuleObject.saveLoad_eq p)
  rw [Ty.saveLoad_struct]
  generalize RoutingObject.clauses.loadJson p
    (some (.object (RoutingObject.clauses.toJson p routing))) {} = z at reloaded ⊢
  cases z
  cases routing
  simp [RoutingObject.clauses, RoutingObject.listed, Ty.saveLoadF_list p wf, rules] at reloaded ⊢
  tauto

private theorem saveLoadF_routing (routing : RoutingObject) :
    (Ty.struct RoutingObject.clauses).saveLoadF p {} routing = routing.listed := by
  have wf : (Ty.struct RoutingObject.clauses).Wf := by simp [Ty.Wf]
  have written : ¬(Ty.struct RoutingObject.clauses).Omitted routing := by
    simp [RoutingObject.clauses, Ty.Omitted, Clauses.Omitted, Leaf.Omitted]
  rw [Ty.saveLoadF_of_not_omitted wf _ written, RoutingObject.saveLoad_eq]

end Members

namespace ProfileContent

/-- Saving and loading a profile keeps everything that some `QJS_JSON` lists. -/
theorem fromJson_toJson_eq_listed (profile : ProfileContent) :
    fromJson p (toJson p profile) = profile.listed := by
  have reloaded := Clauses.reloaded p ProfileContent.clauses_regular.2.1 {} profile
  have wf : (Ty.list (.struct OutboundObject.clauses) {}).Wf := by
    simp [Ty.Wf, Ty.AtDefaults, Clauses.atDefaults_of_onlyFB]
  have outbounds : (Ty.struct OutboundObject.clauses).saveLoad p {} = OutboundObject.listed :=
    funext (OutboundObject.saveLoad_eq p)
  rw [fromJson, toJson, listed]
  generalize clauses.loadJson p (some (.object (clauses.toJson p profile))) {} = z at reloaded ⊢
  cases z
  cases profile
  simp [clauses, Clauses.Reloaded, Ty.Restores.saveLoadF_eq, Ty.saveLoadF_list p wf, outbounds,
    saveLoadF_routing] at reloaded ⊢
  tauto

private theorem map_eq_self_iff {α : Type} {f : α → α} {xs : List α} :
    xs.map f = xs ↔ ∀ x ∈ xs, f x = x := by
  constructor
  · intro same x hx
    have mapped : xs.map f = xs.map id := same.trans (List.map_id xs).symm
    exact List.map_inj_left.mp mapped x hx
  · intro each
    exact (List.map_congr_left each).trans (List.map_id xs)

/-- A profile comes back unchanged exactly when no rule and no balancer of an outbound uses the
name or the options it inherits. -/
theorem fromJson_toJson_eq_iff (profile : ProfileContent) :
    fromJson p (toJson p profile) = profile ↔
      (∀ rule ∈ profile.routing.rules, rule.toBaseTaggedObject = {}) ∧
        ∀ outbound ∈ profile.outbounds, outbound.balancerSettings.toBaseTaggedObject = {} := by
  have rule (r : RuleObject) : r.listed = r ↔ r.toBaseTaggedObject = {} := by
    rw [RuleObject.listed]
    constructor
    · intro same
      rw [← same]
    · intro base
      rw [← base]
  have outbound (o : OutboundObject) :
      o.listed = o ↔ o.balancerSettings.toBaseTaggedObject = {} := by
    rw [OutboundObject.listed, BalancerSettings.listed]
    constructor
    · intro same
      rw [← same]
    · intro base
      rw [← base]
  rw [fromJson_toJson_eq_listed]
  constructor
  · intro same
    have rules : profile.listed.routing.rules = profile.routing.rules := by rw [same]
    have outbounds : profile.listed.outbounds = profile.outbounds := by rw [same]
    constructor
    · intro r hr
      exact (rule r).mp (map_eq_self_iff.mp rules r hr)
    · intro o ho
      exact (outbound o).mp (map_eq_self_iff.mp outbounds o ho)
  · intro ⟨rules, outbounds⟩
    have keptRules : profile.listed.routing.rules = profile.routing.rules :=
      map_eq_self_iff.mpr fun r hr => (rule r).mpr (rules r hr)
    have keptOutbounds : profile.listed.outbounds = profile.outbounds :=
      map_eq_self_iff.mpr fun o ho => (outbound o).mpr (outbounds o ho)
    obtain ⟨kernel, inbounds, outs, routing, extra⟩ := profile
    obtain ⟨overrideRules, ruleList, overrideDNS, dns, fakedns, extraOptions⟩ := routing
    simp only [listed, RoutingObject.listed] at keptRules keptOutbounds ⊢
    rw [keptRules, keptOutbounds]

/-- A rule loses its name. -/
theorem named_rule_not_restored :
    fromJson .reference (toJson .reference { routing := { rules := [{ name := "x" }] } }) ≠
      { routing := { rules := [{ name := "x" }] } } := by
  intro same
  have names := congrArg (fun profile => profile.routing.rules.map fun rule => rule.name) same
  have loaded : (fromJson .reference
      (toJson .reference { routing := { rules := [{ name := "x" }] } })).routing.rules.map
        (fun rule => rule.name) = [""] := rfl
  have lost : [""] = ["x"] := loaded.symm.trans names
  exact absurd lost (by decide)

end ProfileContent

end QvPlugin.Common
