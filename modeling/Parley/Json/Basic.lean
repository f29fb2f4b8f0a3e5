namespace Parley

/-- A JSON value whose numbers are integers. -/
inductive Json where
  | null
  | bool (b : Bool)
  | int (n : Int)
  | text (s : String)
  | array (items : List Json)
  | object (members : List (String × Json))

namespace Json

def escape (c : Char) : List Char :=
  if c = '"' then ['\\', '"']
  else if c = '\\' then ['\\', '\\']
  else if c = '\x08' then ['\\', 'b']
  else if c = '\t' then ['\\', 't']
  else if c = '\n' then ['\\', 'n']
  else if c = '\x0c' then ['\\', 'f']
  else if c = '\r' then ['\\', 'r']
  else if c.toNat < 32 then
    ['\\', 'u', '0', '0', Nat.digitChar (c.toNat / 16), Nat.digitChar (c.toNat % 16)]
  else [c]

def renderText (s : String) : List Char :=
  '"' :: (s.toList.flatMap escape ++ ['"'])

def renderInt : Int → List Char
  | .ofNat n => Nat.toDigits 10 n
  | .negSucc n => '-' :: Nat.toDigits 10 (n + 1)

mutual

def render : Json → List Char
  | .null => "null".toList
  | .bool true => "true".toList
  | .bool false => "false".toList
  | .int n => renderInt n
  | .text s => renderText s
  | .array items => '[' :: renderItems items
  | .object members => '{' :: renderMembers members

def renderItems : List Json → List Char
  | [] => [']']
  | [v] => render v ++ [']']
  | v :: rest => render v ++ ',' :: renderItems rest

def renderMembers : List (String × Json) → List Char
  | [] => ['}']
  | [(k, v)] => renderText k ++ ':' :: (render v ++ ['}'])
  | (k, v) :: rest => renderText k ++ ':' :: (render v ++ ',' :: renderMembers rest)

end

def compact (v : Json) : String :=
  String.ofList v.render

end Json

end Parley
