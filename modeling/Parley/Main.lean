import Parley.Cli

namespace Parley.Program

def fileFault : IO.Error → FileFault
  | .inappropriateType _ code _ => if code = 20 ∨ code = -20 then .notDirectory else .isDirectory
  | .permissionDenied _ _ _ => .permissionDenied
  | _ => .notFound

def readFile (path : String) : IO (Except FileFault (List UInt8)) := do
  try
    let bytes ← IO.FS.readBinFile path
    return .ok bytes.data.toList
  catch e => return .error (fileFault e)

def writeFile (path content : String) : IO (Except FileFault Unit) := do
  try
    IO.FS.writeFile path content
    return .ok ()
  catch e => return .error (fileFault e)

def readFiles (paths : List String) : IO Files := do
  let contents ← paths.mapM fun path => return (path, ← readFile path)
  return fun path => (contents.lookup path).getD (.error .notFound)

def gather (path : String) : IO Files := do
  let files ← readFiles [path]
  match Config.load files path with
  | .error _ => return files
  | .ok c => readFiles (path :: c.templates.filterMap (·.path))

/-- Does what a command needs done to files, then runs it on the outcome. -/
def run (command : Cli.Command) : IO Cli.Report := do
  let o : Config.Overrides :=
    ⟨← IO.getEnv "CONTRACT_PROXY_HASH_ALGORITHMS", ← IO.getEnv "RUST_LOG"⟩
  let (files, written) ← match command with
    | .help _ => pure ((fun _ => .error .notFound : Files), Except.ok ())
    | .initConfig path =>
      pure (fun _ => .error .notFound, ← writeFile path Config.template.fileText)
    | .checkConfig path | .templates path => pure (← gather path, .ok ())
  return Cli.run files o (fun _ _ => written) command

end Parley.Program

def main (args : List String) : IO UInt32 := do
  let report ← match Parley.Cli.Command.ofArgs? args with
    | some command => Parley.Program.run command
    | none => pure Parley.Cli.usage
  IO.print report.stdout
  IO.eprint report.stderr
  return UInt32.ofNat report.code
