import Parley.Config.Basic
import Parley.Toml.Document

namespace Parley

namespace Toml

def Value.field? (v : Value) (place : Nat) (key : String) : Option Value :=
  match v with
  | .table entries => entries.lookup key
  | .array items => items[place]?
  | _ => none

def Value.isSection (count : Nat) : Value → Bool
  | .table _ => true
  | .moment => true
  | .array items => count ≤ items.length
  | _ => false

def Value.text? : Value → Option String
  | .text s => some s
  | _ => none

def Value.integer? : Value → Option Int
  | .integer n => some n
  | _ => none

def Value.list? {α : Type} (item : Value → Option α) : Value → Option (List α)
  | .array items => items.mapM item
  | _ => none

def optional? {α : Type} (read : Value → Option α) : Option Value → Option (Option α)
  | none => some none
  | some v => (read v).map some

end Toml

open Toml

def SecurityConfig.ofToml? (v : Value) : Option SecurityConfig := do
  guard (v.isSection 3)
  let accepted ← (← v.field? 0 "accepted_hash_algorithms").list? Value.text?
  let timestamp ← optional? Value.integer? (v.field? 1 "timestamp_tolerance_secs")
  let certificate ← optional? Value.integer? (v.field? 2 "certificate_tolerance_secs")
  some ⟨accepted, timestamp, certificate⟩

def NegotiationConfig.ofToml? (v : Value) : Option NegotiationConfig := do
  guard (v.isSection 1)
  let attempts ← optional? Value.integer? (v.field? 0 "id_generation_attempts")
  guard (attempts.all fun n => 0 ≤ n && n < Int.pow 2 32)
  some ⟨attempts.map Int.toNat⟩

def LoggingConfig.ofToml? (v : Value) : Option LoggingConfig := do
  guard (v.isSection 2)
  let level ← (← v.field? 0 "level").text?
  let format ← optional? Value.text? (v.field? 1 "format")
  some ⟨level, format⟩

def TemplateConfig.ofToml? (v : Value) : Option TemplateConfig := do
  guard (v.isSection 3)
  let name ← (← v.field? 0 "name").text?
  let text ← optional? Value.text? (v.field? 1 "text")
  let path ← optional? Value.text? (v.field? 2 "path")
  some ⟨name, text, path⟩

namespace Config

def ofToml? (v : Value) : Option Config := do
  let security ← optional? SecurityConfig.ofToml? (v.field? 0 "security")
  let negotiation ← optional? NegotiationConfig.ofToml? (v.field? 1 "negotiation")
  let logging ← optional? LoggingConfig.ofToml? (v.field? 2 "logging")
  let templates ← optional? (Value.list? TemplateConfig.ofToml?) (v.field? 3 "templates")
  some ⟨security.getD .standard, negotiation.getD .standard, logging.getD .standard,
    templates.getD []⟩

def load (files : Files) (path : String) : Except Error Config :=
  match files.text path with
  | .error fault => .error (.config s!"Failed to read config file: {fault.message}")
  | .ok text =>
    match Toml.read text >>= ofToml? with
    | some c => .ok c
    | none => .error (.config "Failed to parse config file")

def loadWithOverrides (files : Files) (o : Overrides) (path : String) : Except Error Config :=
  (load files path).map (·.override o)

def quote (s : String) : String :=
  "\"" ++ String.ofList (s.toList.flatMap fun c =>
    if c = '"' then ['\\', '"']
    else if c = '\\' then ['\\', '\\']
    else if c = '\n' then ['\\', 'n']
    else [c]) ++ "\""

def line (key : String) (value : Option String) : List String :=
  (value.map fun v => s!"{key} = {v}").toList

def fileText (c : Config) : String :=
  let accepted := c.security.acceptedHashAlgorithms.map fun name => s!"    {quote name},"
  let sections : List (List String) := [
    ["[security]", "accepted_hash_algorithms = ["] ++ accepted ++ ["]"] ++
      line "timestamp_tolerance_secs" (c.security.timestampToleranceSecs.map toString) ++
      line "certificate_tolerance_secs" (c.security.certificateToleranceSecs.map toString),
    ["[negotiation]"] ++
      line "id_generation_attempts" (c.negotiation.idGenerationAttempts.map toString),
    ["[logging]", s!"level = {quote c.logging.level}"] ++
      line "format" (c.logging.format.map quote)] ++
    c.templates.map fun t =>
      ["[[templates]]", s!"name = {quote t.name}"] ++ line "text" (t.text.map quote) ++
        line "path" (t.path.map quote)
  "\n".intercalate (sections.map fun lines => String.join (lines.map (· ++ "\n")))

def template : Config :=
  { standard with templates := [{
    name := "simple-purchase"
    text := some "The buyer orders \x7bQuantity\x7d units of article \x7bArticleNumber\x7d."
    path := none }] }

end Config

end Parley
