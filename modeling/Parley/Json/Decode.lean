import Parley.Json.Reading
import Parley.Error

namespace Parley.Json

inductive DecodeError where
  | malformed
  | missingField (name : String)
  | duplicateField (name : String)
  | refused (cause : Error)
  deriving DecidableEq, Repr

def DecodeError.message? : DecodeError → Option String
  | .malformed => none
  | .missingField name => some ("missing field \x60" ++ name ++ "\x60")
  | .duplicateField name => some ("duplicate field \x60" ++ name ++ "\x60")
  | .refused cause => some cause.message

abbrev Decoded := Except DecodeError

structure RecordField (σ : Type) where
  name : String
  present : σ → Bool
  put : Reading → σ → Decoded σ

def RecordField.slot {σ α : Type} (name : String) (get : σ → Option α) (set : α → σ → σ)
    (decode : Reading → Decoded α) : RecordField σ where
  name := name
  present s := (get s).isSome
  put v s := (decode v).map (set · s)

def putMembers {σ : Type} (fields : List (RecordField σ)) :
    List (Option String × Reading) → σ → Decoded σ
  | [], s => .ok s
  | (none, _) :: _, _ => .error .malformed
  | (some key, v) :: rest, s =>
    match fields.find? (·.name == key) with
    | none => putMembers fields rest s
    | some field =>
      if field.present s then .error (.duplicateField key)
      else field.put v s >>= putMembers fields rest

def putItems {σ : Type} : List (RecordField σ) → List Reading → σ → Decoded σ
  | _, [], s => .ok s
  | [], _ :: _, _ => .error .malformed
  | field :: fields, v :: rest, s => field.put v s >>= putItems fields rest

/-- A record: its fields in order, and what is made of them once all are read. An array that is too
short is malformed, where an object would lack a field by name. -/
def record {σ α : Type} (fields : List (RecordField σ)) (start : σ) (build : σ → Decoded α) :
    Reading → Decoded α
  | .object members closed => do
    let s ← putMembers fields members start
    if closed then build s else .error .malformed
  | .hollow => build start
  | .array items closed => do
    let s ← putItems fields items start
    if closed then
      match build s with
      | .error (.missingField _) => .error .malformed
      | built => built
    else .error .malformed
  | _ => .error .malformed

def required {α : Type} (name : String) : Option α → Decoded α
  | some a => .ok a
  | none => .error (.missingField name)

def decodeText : Reading → Decoded String
  | .text s => .ok s
  | _ => .error .malformed

def optional {α : Type} (decode : Reading → Decoded α) : Reading → Decoded (Option α)
  | .null => .ok none
  | v => (decode v).map some

def decodeWord : Reading → Decoded UInt64
  | .number ⟨false, whole, none, none⟩ =>
    let n := natOfDigits whole
    if n < Nat.pow 2 64 then .ok (UInt64.ofNat n) else .error .malformed
  | _ => .error .malformed

def mapItems {α : Type} (decode : Reading → Decoded α) : List Reading → Decoded (List α)
  | [] => .ok []
  | v :: rest => do
    let a ← decode v
    let more ← mapItems decode rest
    .ok (a :: more)

def decodeList {α : Type} (decode : Reading → Decoded α) : Reading → Decoded (List α)
  | .array items closed => do
    let values ← mapItems decode items
    if closed then .ok values else .error .malformed
  | _ => .error .malformed

def decodeName {α : Type} (names : List (String × α)) : Reading → Decoded α
  | .text s => find s
  | .object [(some key, .null)] true => find key
  | .object [(some key, .hollow)] true => find key
  | _ => .error .malformed
where
  find (s : String) : Decoded α :=
    match names.lookup s with
    | some a => .ok a
    | none => .error .malformed

/-- Decodes a whole text: what is wrong with the value comes before what follows it. -/
def decode {α : Type} (decoder : Reading → Decoded α) (text : String) : Decoded α :=
  let (v, ended) := read text
  decoder v >>= fun a => if ended then .ok a else .error .malformed

end Parley.Json
