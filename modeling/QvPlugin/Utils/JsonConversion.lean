import QvPlugin.Common.SafeType
import QvPlugin.Lib.Lens
import QvPlugin.Utils.MergeJson

/-!
`JsonStructHelper` and the `QJS_JSON` macro. A `Clauses S` is the argument list of `QJS_JSON`
in a struct `S`, and a `Ty α` says which overload or branch of `Serialize` and `Deserialize`
the C++ type `α` selects. `toJson` and `loadJson` are what the macro expands to.
-/

set_option autoImplicit false
set_option relaxedAutoImplicit false

namespace QvPlugin.Utils

open Lib Qt Common

/-- The types whose decoder replaces the target, whatever it held. An unscoped `enum` keeps
any `int` that is cast to it, so it is carried by its `int`. -/
inductive Leaf : Type → Type 1
  | bool : Leaf Bool
  | int : Leaf Int32
  | ulonglong : Leaf UInt64
  | float : Leaf ℚ
  | string : Leaf QString
  | timePoint : Leaf TimePoint
  | enum {E : Type} (repr : E ≃ Int32) : Leaf E
  | id (tag : IdTag) : Leaf (IDType tag)
  | object : Leaf QJsonObject
  | safeJson (tag : SafeJsonTag) : Leaf (SafeJsonType tag)

/-- The value of a `Bindable` member. `defaultvalue` is const and set by the declaration, so
it belongs to the type. -/
structure Bindable {α : Type} (defaultvalue : α) where
  value : α

def Bindable.isDefault {α : Type} [DecidableEq α] {defaultvalue : α}
    (b : Bindable defaultvalue) : Bool := b.value = defaultvalue

mutual

/-- A serialisable C++ type. `fresh` is what default construction of an element gives. -/
inductive Ty : Type → Type 1
  | leaf {α : Type} (k : Leaf α) : Ty α
  | list {α : Type} (t : Ty α) (fresh : α) : Ty (List α)
  | set {α : Type} [DecidableEq α] (t : Ty α) (fresh : α) : Ty (Finset α)
  | map {α : Type} (t : Ty α) (fresh : α) : Ty (KeyMap QString α)
  | struct {S : Type} (c : Clauses S) : Ty S

/-- The clauses of one `QJS_JSON`, in order. -/
inductive Clauses : Type → Type 1
  | nil {S : Type} : Clauses S
  | F {S α : Type} (name : QString) (member : Lens S α) (t : Ty α) (rest : Clauses S) : Clauses S
  | P {S α : Type} [DecidableEq α] (name : QString) {defaultvalue : α}
      (member : Lens S (Bindable defaultvalue)) (t : Ty α) (rest : Clauses S) : Clauses S
  | B {S β : Type} (base : Lens S β) (clauses : Clauses β) (rest : Clauses S) : Clauses S

end

def Leaf.serialize : {α : Type} → Leaf α → α → QJsonValue
  | _, .bool, b => some (.bool b)
  | _, .int, x => some (.number x.toInt)
  | _, .ulonglong, x => fromULongLong x
  | _, .float, q => some (.number q)
  | _, .string, s => some (.string s)
  | _, .timePoint, t => some (.number (TimePoint.to_time_t t).toInt)
  | _, .enum repr, e => some (.number (repr e).toInt)
  | _, .id _, i => i.toJson
  | _, .object, o => some (.object o)
  | _, .safeJson _, t => some (.object t.toJson)

def Leaf.deserialize (p : Platform) : {α : Type} → Leaf α → QJsonValue → α
  | _, .bool, d => Qt.toBool d
  | _, .int, d => toInt d
  | _, .ulonglong, d => toULongLong p d
  | _, .float, d => toFloat p d
  | _, .string, d => toQString d
  | _, .timePoint, d => TimePoint.from_time_t (toInteger d)
  | _, .enum repr, d => repr.symm (toInt d)
  | _, .id _, d => IDType.loadJson d
  | _, .object, d => toObject d
  | _, .safeJson _, d => SafeJsonType.loadJson d

/-- The guard of `__TOJSON_F`: the values it does not write. -/
def omitted (j : QJsonValue) : Bool :=
  j.isNone || (isArray j && (toArray j).isEmpty) || (isObject j && (toObject j).isEmpty)

/-- `__TOJSON_F` once the member is serialised. -/
def toJsonField (json : QJsonObject) (name : QString) (j : QJsonValue) : QJsonObject :=
  if omitted j then json else QJsonObject.insert json name j

/-- `__FROMJSON_F`, given how the member is decoded. -/
def fromJsonField {S : Type} (json : QJsonValue) (name : QString) (decode : QJsonValue → S → S)
    (s : S) : S :=
  if (toObject json).contains name then decode (QJsonObject.subscript (toObject json) name) s
  else s

variable (p : Platform)

mutual

/-- `JsonStructHelper::Serialize`. -/
def Ty.serialize : {α : Type} → Ty α → α → QJsonValue
  | _, .leaf k, x => k.serialize x
  | _, .list t _, xs =>
      some (.array (xs.foldl (fun listObject item => QJsonArray.append listObject (t.serialize item)) []))
  | _, @Ty.set _ _ t _, s =>
      some (.array ((p.setOrder s).foldl
        (fun listObject item => QJsonArray.append listObject (t.serialize item)) []))
  | _, .map t _, m =>
      some (.object (m.entries.foldl
        (fun mapObject e => QJsonObject.insert mapObject e.1 (t.serialize e.2)) ∅))
  | _, .struct c, s => some (.object (c.toJsonInto s ∅))

def Clauses.toJsonInto : {S : Type} → Clauses S → S → QJsonObject → QJsonObject
  | _, .nil, _, json => json
  | _, .F name member t rest, s, json =>
      rest.toJsonInto s (toJsonField json name (t.serialize (member.get s)))
  | _, @Clauses.P _ _ _ name _ member t rest, s, json =>
      rest.toJsonInto s
        (if !(member.get s).isDefault then
          toJsonField json name (t.serialize (member.get s).value)
        else json)
  | _, .B base clauses rest, s, json =>
      rest.toJsonInto s (mergeJson json (some (.object (clauses.toJsonInto (base.get s) ∅))))

end

def Clauses.toJson {S : Type} (c : Clauses S) (s : S) : QJsonObject := c.toJsonInto p s ∅

mutual

/-- `JsonStructHelper::Deserialize` into a target that holds `t`. -/
def Ty.deserialize : {α : Type} → Ty α → α → QJsonValue → α
  | _, .leaf k, _, d => k.deserialize p d
  | _, .list t fresh, _, d =>
      (toArray d).foldl (fun xs val => xs ++ [t.deserialize fresh val]) []
  | _, @Ty.set _ _ t fresh, _, d =>
      (toArray d).foldl (fun s val => insert (t.deserialize fresh val) s) ∅
  | _, .map t fresh, _, d =>
      -- `valueVal` is declared outside the loop and keeps what the previous key left in it
      ((p.keys (toObject d)).foldl
        (fun (state : _ × KeyMap QString _) key =>
          let valueVal := t.deserialize state.1 ((toObject d).lookup key)
          (valueVal, state.2.set key valueVal)) (fresh, ∅)).2
  | _, .struct c, s, d => c.loadJson d s

def Clauses.loadJson : {S : Type} → Clauses S → QJsonValue → S → S
  | _, .nil, _, s => s
  | _, .F name member t rest, json, s =>
      rest.loadJson json (fromJsonField json name
        (fun d s => member.set (t.deserialize (member.get s) d) s) s)
  | _, @Clauses.P _ _ _ name _ member t rest, json, s =>
      rest.loadJson json (fromJsonField json name
        (fun d s => member.set ⟨t.deserialize (member.get s).value d⟩ s) s)
  | _, .B base clauses rest, json, s =>
      rest.loadJson json (base.set (clauses.loadJson json (base.get s)) s)

end

end QvPlugin.Utils
