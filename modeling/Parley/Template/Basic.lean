import Parley.Template.Placeholder
import Parley.Arguments
import Parley.Digest.Text
import Parley.Settings
import Parley.Text.Blank

namespace Parley

def insertName (n : String) : List String → List String
  | [] => [n]
  | m :: rest =>
    if n < m then n :: m :: rest else if n = m then m :: rest else m :: insertName n rest

structure Template where
  name : String
  text : String
  parameters : List String
  hashes : List Digest
  preferredHash : Digest
  deriving DecidableEq

namespace Template

def define (name text : String) (accepted : List HashAlgorithm) : Except Error Template :=
  if Text.allBlank name then .error (.config "Template name cannot be empty")
  else
    match HashAlgorithm.preferred? accepted with
    | none => .error (.config "No hash algorithm accepted")
    | some preferred =>
      let bytes := Text.utf8 text
      .ok {
        name, text
        parameters := (Placeholder.scan text).foldl (fun names p => insertName p.name names) []
        hashes := Digest.ofAll accepted bytes
        preferredHash := Digest.of preferred bytes }

def problems (t : Template) (arguments : Arguments) : List String :=
  let strangers := arguments.keys.filter fun k => !t.parameters.contains k
  strangers.map (fun k => s!"unknown argument '{k}'") ++
    t.parameters.filterMap fun p =>
      match arguments.get? p with
      | none => some s!"missing argument '{p}'"
      | some v => if Text.allBlank v then some s!"argument '{p}' is blank" else none

def validate (t : Template) (arguments : Arguments) : Except Error Unit :=
  match t.problems arguments with
  | [] => .ok ()
  | problems => .error (.contractInvalid t.name problems)

def fill (t : Template) (arguments : Arguments) : Piece → Except Error (List Char)
  | .plain c => .ok [c]
  | .slot name =>
    let parameter := String.ofList name
    match arguments.get? parameter with
    | some v => .ok ('{' :: (v.toList ++ ['}']))
    | none => .error (.templateVanished
        s!"argument '{parameter}' of template '{t.name}' disappeared after validation")

/-- The text with every placeholder's name replaced by its argument, if the arguments fit. -/
def render (t : Template) (arguments : Arguments) : Except Error String := do
  t.validate arguments
  let filled ← (pieces t.text.toList).mapM (t.fill arguments)
  return String.ofList filled.flatten

end Template

end Parley
