import EZChain.Serde.Construction

/-!
# Conversion to JSON and back

`to_json_obj` writes bytes, members of enumerations and dataclass instances as tagged objects, and
lists and tuples alike as lists; `from_json_obj` goes by the tags and by the table of tuple fields.
-/

namespace EZChain.Serde

open Checks JsonText

/-! ## Writing -/

/-- `value.hex()`. -/
def hexText (value : Bytes) : String :=
  String.ofList <| value.flatMap fun byte =>
    [Nat.digitChar (byte.toNat / 16), Nat.digitChar (byte.toNat % 16)]

mutual

/-- `to_json_obj`. -/
def toJsonObj : Datum → Value
  | .none => .null
  | .bool value => .bool value
  | .int value => .int value
  | .str value => .str value
  | .bytes value => .dict [("__bytes__", .str (hexText value))]
  | .enumMember enumClass value =>
      .dict [("__enum__", .str enumClass.name), ("value", .str value)]
  | .dataclass className fields =>
      .dict (("__type__", .str className.name) :: toJsonEntries fields)
  | .tuple items => .list (toJsonItems items)
  | .list items => .list (toJsonItems items)
  | .dict entries => .dict (toJsonEntries entries)

def toJsonItems : List Datum → List Value
  | [] => []
  | item :: items => toJsonObj item :: toJsonItems items

def toJsonEntries : List (String × Datum) → List (String × Value)
  | [] => []
  | (key, value) :: entries => (key, toJsonObj value) :: toJsonEntries entries

end

/-- `dumps_json`. -/
def dumpsJson (value : Datum) : List Char := dumps (toJsonObj value)

/-! ## Reading -/

/-- The ASCII whitespace that `bytes.fromhex` skips between bytes. -/
def isSpace (char : Char) : Bool := char ∈ [' ', '\t', '\n', '\r', '\x0b', '\x0c']

/-- `bytes.fromhex` on the characters of a text. -/
def fromHex : List Char → Option Bytes
  | [] => some []
  | [char] => if isSpace char then some [] else none
  | high :: low :: rest =>
      if isSpace high then fromHex (low :: rest)
      else do
        let first ← hexDigit? high
        let second ← hexDigit? low
        let bytes ← fromHex rest
        some (UInt8.ofNat (first * 16 + second) :: bytes)

/-- The value of the key `__bytes__` as bytes. -/
def decodeBytes : Value → Except SerdeError Datum
  | .str text => do
      let bytes ← demand (fromHex text.toList) .invalidValue
      return .bytes bytes
  | _ => .error .typeError

/-- A name as the key of a registry; lists and dictionaries cannot be keys. -/
def registryKey : Value → Except SerdeError String
  | .str name => .ok name
  | .list _ => .error .typeError
  | .dict _ => .error .typeError
  | other => .error (.keyError other)

/-- The member of an enumeration with a value. -/
def decodeEnum (name : Value) (entries : List (String × Value)) : Except SerdeError Datum := do
  let key ← registryKey name
  let enumClass ← demand (EnumClass.registry.find? fun enumClass => enumClass.name = key)
    (.keyError name)
  let value ← demand (OrderedDict.findValue "value" entries) (.keyError (.str "value"))
  match value with
  | .str value =>
      require (value ∈ enumClass.values) .invalidValue
      return .enumMember enumClass value
  | _ => .error .invalidValue

/-- The class that a type tag names. -/
def decodeClass (name : Value) : Except SerdeError ClassName := do
  let key ← registryKey name
  demand (ClassName.ofName? key) (.keyError name)

/-- `tuple(item)` for a list in a tuple field. -/
def asField (inTupleField : Bool) : Datum → Datum
  | .list items => if inTupleField then .tuple items else .list items
  | value => value

/-- The value stands in a field that is decoded as a tuple. -/
def ClassName.readsTuple (className : ClassName) (name : String) : Bool :=
  name ∈ className.tupleFields

mutual

/-- `from_json_obj`. -/
def fromJsonObj (factories : Factories) : Value → Except SerdeError Datum
  | .null => .ok .none
  | .bool value => .ok (.bool value)
  | .int value => .ok (.int value)
  | .str value => .ok (.str value)
  | .list items => do
      let items ← fromJsonItems factories items
      return .list items
  | .dict entries =>
      match OrderedDict.findValue "__bytes__" entries with
      | some text => decodeBytes text
      | none =>
          match OrderedDict.findValue "__enum__" entries with
          | some name => decodeEnum name entries
          | none =>
              match OrderedDict.findValue "__type__" entries with
              | some name => do
                  let className ← decodeClass name
                  let arguments ← fromJsonFields factories className entries
                  className.construct factories arguments
              | none => do
                  let entries ← fromJsonEntries factories entries
                  return .dict entries

def fromJsonItems (factories : Factories) : List Value → Except SerdeError (List Datum)
  | [] => .ok []
  | item :: items => do
      let item ← fromJsonObj factories item
      let items ← fromJsonItems factories items
      return item :: items

/-- The keyword arguments of an instance. -/
def fromJsonFields (factories : Factories) (className : ClassName) :
    List (String × Value) → Except SerdeError (List (String × Datum))
  | [] => .ok []
  | (key, value) :: entries =>
      if key = "__type__" then fromJsonFields factories className entries
      else do
        let item ← fromJsonObj factories value
        let arguments ← fromJsonFields factories className entries
        return (key, asField (className.readsTuple key) item) :: arguments

def fromJsonEntries (factories : Factories) :
    List (String × Value) → Except SerdeError (List (String × Datum))
  | [] => .ok []
  | (key, value) :: entries => do
      let value ← fromJsonObj factories value
      let entries ← fromJsonEntries factories entries
      return (key, value) :: entries

end

/-- `loads_json`, for the texts that `dumps_json` writes. -/
def loadsJson (factories : Factories) (raw : List Char) : Except SerdeError Datum := do
  let value ← demand (loads raw) .invalidValue
  fromJsonObj factories value

end EZChain.Serde
