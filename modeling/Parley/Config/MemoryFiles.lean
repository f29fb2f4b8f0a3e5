import Parley.Config.Basic
import Parley.Text.Blank

namespace Parley

structure MemoryFiles where
  contents : List (String × List UInt8)

namespace MemoryFiles

def parts (path : String) : List (List Char) :=
  (Text.cells '/' path.toList).filter fun part => part != [] && part != ['.']

def isDirectory (m : MemoryFiles) (ps : List (List Char)) : Bool :=
  ps.isEmpty || m.contents.any fun (name, _) =>
    ps.length < (parts name).length && ps.isPrefixOf (parts name)

def fault (m : MemoryFiles) (path : String) : FileFault :=
  let ps := parts path
  if path.isEmpty then .notFound
  else if m.isDirectory ps then .isDirectory
  else if m.contents.any fun (name, _) => (parts name).isPrefixOf ps then .notDirectory
  else .notFound

def endsInSlash (path : String) : Bool :=
  path.toList.getLast? == some '/'

def read (m : MemoryFiles) : Files := fun path =>
  match m.contents.find? fun (name, _) => parts name == parts path with
  | some (_, content) => if endsInSlash path then .error .notDirectory else .ok content
  | none => .error (m.fault path)

def write (m : MemoryFiles) (path : String) (content : List UInt8) : Except FileFault MemoryFiles :=
  match m.read path with
  | .error .notFound =>
    if path.isEmpty || !m.isDirectory (parts path).dropLast then .error .notFound
    else if endsInSlash path then .error .isDirectory
    else .ok ⟨m.contents ++ [(path, content)]⟩
  | .error fault => .error fault
  | .ok _ =>
    .ok ⟨m.contents.map fun (name, old) =>
      (name, if parts name = parts path then content else old)⟩

end MemoryFiles

end Parley
