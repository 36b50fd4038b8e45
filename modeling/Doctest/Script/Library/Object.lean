import Doctest.Script.Property

/-!
# Objects and errors

The functions that list the properties of a value, and the constructors of errors.
-/

namespace Doctest.Script.Library

/-- A value for each position. -/
def indexed (items : List Value) : List (String × Value) :=
  items.zipIdx.map fun (item, index) => (toString index, item)

/-- The properties of a value that are listed, in their order. -/
def ownProperties (target : Value) : Eval (List (String × Value)) := do
  match target with
  | .undefined | .null => Eval.fail .listOfNothing
  | .object ref => return (← Eval.read ref).entries
  | .array ref => return indexed (← Eval.read ref).toList
  | .string s => return indexed (s.toList.map fun c => .string (String.singleton c))
  | .error ref => return (← Eval.read ref).properties.entries
  | _ => return []

/-- A new array of the keys of a value. -/
def keys (target : Value) : Eval Value := do
  Eval.newArray ((← ownProperties target).map fun (key, _) => Value.string key).toArray

/-- A new array of the values of the properties of a value. -/
def values (target : Value) : Eval Value := do
  Eval.newArray ((← ownProperties target).map Prod.snd).toArray

/-- A new array of pairs of a key and a value. -/
def entries (target : Value) : Eval Value := do
  let pairs ← (← ownProperties target).mapM fun (key, value) =>
    Eval.newArray #[.string key, value]
  Eval.newArray pairs.toArray

/-- The argument itself, or a new object if it is `undefined` or `null`. -/
def toObject (value : Value) : Eval Value :=
  if value.isNullish then Eval.newObject Dict.empty else return value

/-- The message that an argument gives an error. -/
def messageOf (arg : Option Value) : Eval String := do
  match arg with
  | none | some .undefined => return ""
  | some value => Eval.text value

/-- The properties that an argument gives an error: all those of an object. -/
def optionsOf (arg : Option Value) : Eval (Dict Value) := do
  match arg with
  | some (.object ref) => Eval.read ref
  | _ => return Dict.empty

/-- A new error with a message and options. -/
def newErrorOf (kind : ErrorKind) (args : List Value) : Eval Value := do
  let message ← messageOf args[0]?
  let properties ← optionsOf args[1]?
  return .error (← Eval.alloc .error ⟨kind.name, message, properties⟩)

end Doctest.Script.Library
