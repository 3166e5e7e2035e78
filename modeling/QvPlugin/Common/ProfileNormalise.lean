import QvPlugin.Common.WellFormed
import QvPlugin.Utils.Normalise

/-! Loading any document as a profile and saving the profile. -/

set_option autoImplicit false
set_option relaxedAutoImplicit false

namespace QvPlugin.Common.ProfileContent

open Lib Qt Utils

/-- What is saved after loading a document. -/
def normalise (p : Platform) (j : QJsonObject) : QJsonObject := toJson p (fromJson p j)

private theorem clauses_ordered : clauses.Ordered := by
  simp [clauses, InboundObject.clauses, OutboundObject.clauses, RoutingObject.clauses,
    RuleObject.clauses, IOConnectionSettings.clauses, MultiplexerObject.clauses,
    PortRange.clauses, BalancerSettings.clauses, ChainSettings.clauses, BaseTaggedObject.clauses,
    stringListTy, Clauses.Ordered, Ty.Ordered]

private theorem clauses_blank : clauses.Blank {} := by
  simp [clauses, InboundObject.clauses, OutboundObject.clauses, RoutingObject.clauses,
    RuleObject.clauses, IOConnectionSettings.clauses, MultiplexerObject.clauses,
    PortRange.clauses, BalancerSettings.clauses, ChainSettings.clauses, BaseTaggedObject.clauses,
    stringListTy, Clauses.Blank, Ty.Blank, Leaf.Blank]

variable (p : Platform)

private theorem normalise_eq (j : QJsonObject) :
    (some (.object (normalise p j)) : QJsonValue) = (Ty.struct clauses).serialize p
      ((Ty.struct clauses).deserialize p {} (some (.object j))) := by
  rw [Ty.serialize_struct, Ty.deserialize]
  rfl

/-- Loading and saving keeps every well-kinded value at a declared path and every list in length
and order, adds no undeclared key, and changes nothing the second time. -/
theorem normalise_lossless (j : QJsonObject) :
    (∀ {β : Type} (k : Leaf β) (path : List Key) (v : Json), At (.struct clauses) path (.leaf k) →
      follow (some (.object j)) path = some v → k.WellKinded v →
        follow (some (.object (normalise p j))) path = shown path (some v)) ∧
    (∀ {β : Type} (t : Ty β) (fresh : β) (path : List Key) (a : QJsonArray),
      At (.struct clauses) path (.list t fresh) →
      follow (some (.object j)) path = some (.array a) →
        follow (some (.object (normalise p j))) path = shown path
          (some (.array (a.map fun e => t.serialize p (t.deserialize p fresh e))))) ∧
    (∀ (path : List Key) (v : Json), follow (some (.object (normalise p j))) path = some v →
      ∃ (declared inside : List Key) (β : Type) (u : Ty β),
        path = declared ++ inside ∧ At (.struct clauses) declared u ∧ (inside = [] ∨ u.Raw)) ∧
    normalise p (normalise p j) = normalise p j := by
  have wf : (Ty.struct clauses).Wf := by simp [Ty.Wf]
  have ordered : (Ty.struct clauses).Ordered := by
    rw [Ty.Ordered]
    exact clauses_ordered
  rw [normalise_eq]
  refine ⟨?_, ?_, ?_, ?_⟩
  · intro β k path v leads found kinded
    exact leads.follow_leaf_eq p wf found kinded {}
  · intro β t fresh path a leads found
    exact leads.follow_list_eq p wf found {}
  · intro path v found
    exact Ty.declared_of_follow p _ wf ordered _ path found
  · exact Clauses.toJson_loadJson_toJson p clauses_regular.2.1 clauses_regular.1
      clauses_regular.2.2 clauses_blank (fromJson p j)

def oneRule : QJsonObject :=
  KeyMap.set ∅ "routing" (.object (KeyMap.set ∅ "rules" (.array
    [some (.object (KeyMap.set (KeyMap.set ∅ "enabled" (.bool false)) "note" (.string "x")))])))

/-- The rule stays switched off. -/
theorem oneRule_kept : follow (some (.object (normalise .reference oneRule)))
    [.name "routing", .name "rules", .index 0, .name "enabled"] = some (.bool false) := by
  have enabled : At (.struct RuleObject.clauses) [.name "enabled"] (.leaf .bool) :=
    .key (by rw [RuleObject.clauses]; exact .F) (.here _)
  have rules : At (.struct RoutingObject.clauses) [.name "rules", .index 0, .name "enabled"]
      (.leaf .bool) :=
    .key (by rw [RoutingObject.clauses]; exact .restF .F) (.index 0 enabled)
  have leads : At (.struct clauses)
      [.name "routing", .name "rules", .index 0, .name "enabled"] (.leaf .bool) :=
    .key (by rw [clauses]; exact .restF (.restF (.restF .F))) rules
  have found : follow (some (.object oneRule))
      [.name "routing", .name "rules", .index 0, .name "enabled"] = some (.bool false) := rfl
  exact (normalise_lossless .reference oneRule).1 .bool _ _ leads found trivial

end QvPlugin.Common.ProfileContent
