import Parley.Settings
import Parley.Template.Directory

namespace Parley

open Json

structure SecurityConfig where
  acceptedHashAlgorithms : List String
  timestampToleranceSecs : Option Int
  certificateToleranceSecs : Option Int
  deriving DecidableEq, Repr

structure NegotiationConfig where
  idGenerationAttempts : Option Nat
  deriving DecidableEq, Repr

structure LoggingConfig where
  level : String
  format : Option String
  deriving DecidableEq, Repr

structure TemplateConfig where
  name : String
  text : Option String
  path : Option String
  deriving DecidableEq, Repr

structure Config where
  security : SecurityConfig
  negotiation : NegotiationConfig
  logging : LoggingConfig
  templates : List TemplateConfig
  deriving DecidableEq, Repr

inductive FileFault where
  | notFound
  | isDirectory
  | notDirectory
  | permissionDenied
  | notUtf8
  deriving DecidableEq, Repr

def FileFault.message : FileFault → String
  | .notFound => "No such file or directory (os error 2)"
  | .isDirectory => "Is a directory (os error 21)"
  | .notDirectory => "Not a directory (os error 20)"
  | .permissionDenied => "Permission denied (os error 13)"
  | .notUtf8 => "stream did not contain valid UTF-8"

abbrev Files := String → Except FileFault (List UInt8)

def Files.text (files : Files) (path : String) : Except FileFault String := do
  let bytes ← files path
  match Text.ofUtf8? bytes with
  | some s => .ok s
  | none => .error .notUtf8

def SecurityConfig.standard : SecurityConfig where
  acceptedHashAlgorithms := ["SHA-256", "SHA-512", "BLAKE3"]
  timestampToleranceSecs := some Settings.defaultTimestampTolerance
  certificateToleranceSecs := some Settings.defaultCertificateTolerance

def NegotiationConfig.standard : NegotiationConfig where
  idGenerationAttempts := some Settings.defaultIdAttempts

def LoggingConfig.standard : LoggingConfig where
  level := "info"
  format := some "json"

namespace TemplateConfig

def bothOrNeither (c : TemplateConfig) : Error :=
  .config ("Template '" ++ c.name ++ "' needs exactly one of \x60text\x60 or \x60path\x60")

/-- The template, its text read from a file if it is not given. -/
def load (c : TemplateConfig) (files : Files) (s : Settings) : Except Error Template :=
  match c.text, c.path with
  | some text, none => Template.define c.name text s.accepted
  | none, some path =>
    match files.text path with
    | .ok text => Template.define c.name text s.accepted
    | .error fault =>
      .error (.config s!"Failed to read template '{c.name}' from {path}: {fault.message}")
  | _, _ => .error c.bothOrNeither

def validate (c : TemplateConfig) : Except Error Unit :=
  if Text.allBlank c.name then .error (.config "Template name cannot be empty")
  else if c.text.isSome = c.path.isSome then .error c.bothOrNeither
  else .ok ()

end TemplateConfig

namespace Config

def standard : Config := ⟨.standard, .standard, .standard, []⟩

def algorithms (accepted : List HashAlgorithm) : List String → Except Error (List HashAlgorithm)
  | [] => .ok accepted
  | name :: rest => do
    let a ← HashAlgorithm.ofName name
    algorithms (if accepted.contains a then accepted else accepted ++ [a]) rest

def tolerance (key : String) (seconds : Int) : Except Error Span :=
  match Span.ofSeconds? seconds with
  | some span => .ok span
  | none => .error (.config s!"{key} is out of range: {seconds}")

def settings (c : Config) : Except Error Settings := do
  let accepted ← algorithms [] c.security.acceptedHashAlgorithms
  if accepted.isEmpty then throw (.config "At least one hash algorithm must be accepted")
  let timestamp := c.security.timestampToleranceSecs.getD Settings.defaultTimestampTolerance
  let certificate := c.security.certificateToleranceSecs.getD Settings.defaultCertificateTolerance
  if timestamp < 0 ∨ certificate < 0 then throw (.config "Tolerances cannot be negative")
  let attempts := c.negotiation.idGenerationAttempts.getD Settings.defaultIdAttempts
  if attempts = 0 then throw (.config "id_generation_attempts must be at least 1")
  let timestampTolerance ← tolerance "timestamp_tolerance_secs" timestamp
  let certificateTolerance ← tolerance "certificate_tolerance_secs" certificate
  return ⟨accepted, timestampTolerance, certificateTolerance, attempts⟩

def validate (c : Config) : Except Error Unit := do
  let _ ← c.settings
  c.templates.forM TemplateConfig.validate

def loadTemplates (c : Config) (files : Files) (s : Settings) : Except Error Templates := do
  let templates ← c.templates.mapM fun t => t.load files s
  Templates.ofList templates

structure Overrides where
  algorithms : Option String
  logLevel : Option String
  deriving DecidableEq, Repr

def splitNames (s : String) : List String :=
  ((Text.cells ',' s.toList).map fun cell => Text.trim (String.ofList cell)).filter fun name =>
    !name.isEmpty

def override (c : Config) (o : Overrides) : Config :=
  let security := match o.algorithms with
    | some s => { c.security with acceptedHashAlgorithms := splitNames s }
    | none => c.security
  let logging := match o.logLevel with
    | some level => { c.logging with level }
    | none => c.logging
  { c with security, logging }

def orNull {α : Type} (f : α → Json) (a : Option α) : Json := (a.map f).getD .null

def toJson (c : Config) : Json :=
  .object [
    ("security", .object [
      ("accepted_hash_algorithms", .array (c.security.acceptedHashAlgorithms.map .text)),
      ("timestamp_tolerance_secs", orNull .int c.security.timestampToleranceSecs),
      ("certificate_tolerance_secs", orNull .int c.security.certificateToleranceSecs)]),
    ("negotiation", .object [
      ("id_generation_attempts", orNull (fun n => .int n) c.negotiation.idGenerationAttempts)]),
    ("logging", .object [
      ("level", .text c.logging.level), ("format", orNull .text c.logging.format)]),
    ("templates", .array (c.templates.map fun t => .object [
      ("name", .text t.name), ("text", orNull .text t.text), ("path", orNull .text t.path)]))]

end Config

end Parley
