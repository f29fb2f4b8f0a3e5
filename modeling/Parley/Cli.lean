import Parley.Cli.Command
import Parley.Config.File

namespace Parley.Cli

structure Report where
  code : Nat
  stdout : String
  stderr : String
  deriving DecidableEq, Repr

namespace Report

def lines (ls : List String) : String := String.join (ls.map (· ++ "\n"))

def success (ls : List String) : Report := ⟨0, lines ls, ""⟩

def failure (ls : List String) : Report := ⟨1, "", lines ls⟩

def ofError (e : Error) : Report := failure [s!"Error: {e.message}"]

end Report

def load (files : Files) (o : Config.Overrides) (path : String) :
    Except Report (Settings × Templates) := do
  let c ← (Config.loadWithOverrides files o path).mapError fun e =>
    .failure [s!"Error: loading {path}", "", "Caused by:", s!"    {e.message}"]
  c.validate.mapError .ofError
  let settings ← c.settings.mapError .ofError
  let templates ← (c.loadTemplates files settings).mapError .ofError
  return (settings, templates)

def describeSettings (s : Settings) (ts : Templates) : List String :=
  ["Configuration OK",
    "  accepted hash algorithms: " ++ ", ".intercalate (s.accepted.map HashAlgorithm.name),
    s!"  preferred: {s.preferred.name}",
    s!"  timestamp tolerance: {s.timestampTolerance.seconds}s",
    s!"  templates: {ts.size}"]

def describeTemplate (t : Template) : List String :=
  [t.name, "  parameters: " ++ ", ".intercalate t.parameters] ++
    t.hashes.map fun h => "  " ++ h.text

def reportWritten (path : String) : Except FileFault Unit → Report
  | .ok () => .success [s!"Wrote default configuration to {path}"]
  | .error fault => .ofError (.config s!"Failed to write default config file: {fault.message}")

def usage : Report := ⟨2, "", Report.lines ["Usage: contract-proxy <COMMAND>"]⟩

/-- Runs a command. Writing the file is up to the function given for it, which says how that went.
-/
def run (files : Files) (o : Config.Overrides) (write : String → String → Except FileFault Unit) :
    Command → Report
  | .help topic => .success topic.text
  | .initConfig path => reportWritten path (write path Config.template.fileText)
  | .checkConfig path =>
    match load files o path with
    | .error report => report
    | .ok (settings, templates) => .success (describeSettings settings templates)
  | .templates path =>
    match load files o path with
    | .error report => report
    | .ok (_, templates) => .success (templates.sorted.flatMap describeTemplate)

end Parley.Cli
