import RelayPubsub.Model

/-!
# JSON values

`serde_json::Value` and the accessors the gateway uses. Parsing bytes or text
into a value is the work of the `serde_json` crate, so it enters the model as a
parameter, `RelayPubsub.SerdeJson`; what the gateway does with a value, and
`serde_json::from_value` at the two types the gateway asks for, is written out.
-/

namespace RelayPubsub

open Lib

/-- A number of a JSON text: `u64` when it is a nonnegative integer that fits,
`i64` when it is a negative one that fits, `f64` otherwise. No accessor of the
gateway looks at the last kind, so its text stands for it. -/
inductive Number where
  | posInt (n : UInt64)
  | negInt (n : Int64)
  | float (repr : Text)

/-- `serde_json::Value`. The keys of an object are distinct. -/
inductive Value where
  | null
  | bool (b : Bool)
  | number (n : Number)
  | string (s : Text)
  | array (items : List Value)
  | object (fields : List (Text × Value))

/-- The parsers of the `serde_json` crate, with the text of their errors. -/
structure SerdeJson where
  /-- `serde_json::from_slice::<Value>` -/
  fromSlice : Bytes → Except Text Value
  /-- `serde_json::from_str::<Value>` -/
  fromStr : Text → Except Text Value

namespace Value

/-- `get(key)`: the field of an object, nothing for another value. -/
def get (v : Value) (key : Text) : Option Value :=
  match v with
  | .object fields => fields.lookup key
  | _ => none

def asStr : Value → Option Text
  | .string s => some s
  | _ => none

def asBool : Value → Option Bool
  | .bool b => some b
  | _ => none

def asU64 : Value → Option UInt64
  | .number (.posInt n) => some n
  | _ => none

/-- `as_i64`: a nonnegative integer is an `i64` when it is at most `i64::MAX`. -/
def asI64 : Value → Option Int64
  | .number (.posInt n) => if n.toNat < 2 ^ 63 then some (Int64.ofNat n.toNat) else none
  | .number (.negInt n) => some n
  | _ => none

def asArray : Value → Option (List Value)
  | .array items => some items
  | _ => none

def asObject : Value → Option (List (Text × Value))
  | .object fields => some fields
  | _ => none

/-- `serde_json::from_value::<Vec<String>>` -/
def toStrings (v : Value) : Option (List Text) := v.asArray.bind fun items => items.mapM asStr

/-- `serde_json::from_value::<HashMap<String, String>>` -/
def toStringMap (v : Value) : Option (StrMap Text) :=
  v.asObject.bind fun fields =>
    (fields.mapM fun (f : Text × Value) => f.2.asStr.map fun s => (f.1, s)).map fun fs => .ofList fs

/-- The string at `key`, if the value has one there. -/
def getStr (v : Value) (key : Text) : Option Text := (v.get key).bind asStr

end Value

end RelayPubsub
