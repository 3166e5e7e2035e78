import QvPlugin.Qt.Path

/-!
`QJsonIO` and `QJsonIOPath`. The keys of a call are a list of `Key`s; the variadic templates
are recursions over them, one for each kind of the next key.
-/

set_option autoImplicit false
set_option relaxedAutoImplicit false

namespace QvPlugin.Utils

open Lib Qt

inductive QJsonIOPathType where
  | JSONIO_MODE_ARRAY
  | JSONIO_MODE_OBJECT
  deriving DecidableEq

/-- A step as it is stored: the text of an index or a key, and which of the two it is. -/
abbrev QJsonIONodeType := QString × QJsonIOPathType

abbrev QJsonIOPath := List QJsonIONodeType

def number (n : ℕ) : QString := Nat.repr n

/-- `QString::toInt` of a text of decimal digits: 0 when it does not fit a 32-bit `int`. -/
def textToInt (s : QString) : ℕ :=
  let digits := s.toList
  let value := Nat.ofDigitChars 10 digits 0
  if digits ≠ [] ∧ digits.all Char.isDigit ∧ value < 2 ^ 31 then value else 0

namespace QJsonIOPath

def AppendPath (path : QJsonIOPath) : Key → QJsonIOPath
  | .index index => path ++ [(number index, .JSONIO_MODE_ARRAY)]
  | .name key => path ++ [(key, .JSONIO_MODE_OBJECT)]

/-- The constructor, for two keys or more; a shorter path comes from `AppendPath` or `operator<<`.
-/
def ofKeys (keys : List Key) : QJsonIOPath := keys.foldl AppendPath []

end QJsonIOPath

namespace QJsonIO

/-- `parent.toArray()[current]` or `parent.toObject()[current]`, on a temporary. -/
def subscript (parent : QJsonValue) : Key → QJsonValue
  | .index current => QJsonArray.subscript (toArray parent) current
  | .name current => QJsonObject.subscript (toObject parent) current

/-- `GetValue(parent, current, other...)`. -/
def GetValue (parent : QJsonValue) (current : Key) : List Key → QJsonValue
  | [] => subscript parent current
  | next :: other => GetValue (subscript parent current) next other

/-- `GetValue(value, std::tuple(keys...), defaultValue)`. -/
def GetValueTuple (value : QJsonValue) (keys : List Key) (defaultValue : QJsonValue) :
    QJsonValue :=
  let value := keys.foldl (fun value arg => valueAt value arg) value
  if value.isNone then defaultValue else value

/-- One round of the loop of `GetValue(parent, path, defaultValue)`. -/
def descend (val : QJsonValue) : QJsonIONodeType → QJsonValue
  | (k, .JSONIO_MODE_ARRAY) => QJsonArray.subscript (toArray val) (textToInt k)
  | (k, .JSONIO_MODE_OBJECT) => QJsonObject.subscript (toObject val) k

/-- `GetValue(parent, path, defaultValue)`. -/
def GetValuePath (parent : QJsonValue) (path : QJsonIOPath) (defaultValue : QJsonValue) :
    QJsonValue :=
  let val := path.foldl descend parent
  if val.isNone then defaultValue else val

/-- `for (auto i = array.size(); i <= index; i++) array.insert(i, {});` -/
def grow (array : QJsonArray) (index : ℕ) : QJsonArray :=
  (List.range' array.length (index + 1 - array.length)).foldl
    (fun array i => array.insertIdx i (some .null)) array

mutual

/-- `SetValue(parent, val, current, other...)` for an array and an index. -/
def SetValueArray (parent : QJsonArray) (val : QJsonValue) (current : ℕ) : List Key → QJsonArray
  | [] => QJsonArray.assign (grow parent current) current val
  | .index next :: other =>
      let parent := grow parent current
      let _array := toArray (QJsonArray.subscript parent current)
      QJsonArray.assign parent current (some (.array (SetValueArray _array val next other)))
  | .name next :: other =>
      let parent := grow parent current
      let _object := toObject (QJsonArray.subscript parent current)
      QJsonArray.assign parent current (some (.object (SetValueObject _object val next other)))

/-- `SetValue(parent, val, current, other...)` for an object and a key. -/
def SetValueObject (parent : QJsonObject) (val : QJsonValue) (current : QString) :
    List Key → QJsonObject
  | [] => QJsonObject.assign parent current val
  | .index next :: other =>
      let _array := toArray (QJsonObject.subscript parent current)
      QJsonObject.assign (QJsonObject.touch parent current) current
        (some (.array (SetValueArray _array val next other)))
  | .name next :: other =>
      let _object := toObject (QJsonObject.subscript parent current)
      QJsonObject.assign (QJsonObject.touch parent current) current
        (some (.object (SetValueObject _object val next other)))

end

inductive Parent where
  | object (o : QJsonObject)
  | array (a : QJsonArray)

def Parent.toValue : Parent → QJsonValue
  | .object o => some (.object o)
  | .array a => some (.array a)

/-- The variadic `SetValue`. An index on an object or a key on an array does not compile. -/
def SetValue (parent : Parent) (val : QJsonValue) (current : Key) (other : List Key) :
    Option Parent :=
  match parent, current with
  | .array a, .index current => some (.array (SetValueArray a val current other))
  | .object o, .name current => some (.object (SetValueObject o val current other))
  | _, _ => none

/-- One round of the first loop of `SetValue(parent, t, path)`. -/
def prepend (state : List (QJsonIONodeType × QJsonValue) × QJsonValue) (step : QJsonIONodeType) :
    List (QJsonIONodeType × QJsonValue) × QJsonValue :=
  ((step, state.2) :: state.1, descend state.2 step)

/-- One round of its second loop. -/
def rebuild (lastNode : QJsonValue) : QJsonIONodeType × QJsonValue → QJsonValue
  | ((key, .JSONIO_MODE_ARRAY), node) =>
      let index := textToInt key
      let nodeArray := grow (toArray node) index
      some (.array (QJsonArray.assign nodeArray index lastNode))
  | ((key, .JSONIO_MODE_OBJECT), node) =>
      some (.object (QJsonObject.assign (toObject node) key lastNode))

/-- `SetValue(parent, t, path)`. -/
def SetValuePath (parent : Parent) (t : QJsonValue) (path : QJsonIOPath) : Parent :=
  let _stack := (path.foldl prepend ([], parent.toValue)).1
  let lastNode := _stack.foldl rebuild t
  match parent with
  | .object _ => .object (toObject lastNode)
  | .array _ => .array (toArray lastNode)

end QJsonIO

end QvPlugin.Utils
