import Parley.Toml.Value

/-!
# TOML documents

A document is a tree of tables. A table comes about in one of three ways, and each allows other
additions: a header defines it, once; a longer header implies it, so a header may still define it; a
dotted key implies it, so only dotted keys of the same table may add to it.
-/

namespace Parley.Toml

inductive Origin where
  | defined
  | impliedByHeader
  | impliedByKey
  deriving DecidableEq, Repr

inductive Node where
  | leaf (v : Value)
  | table (origin : Origin) (entries : List (String × Node))
  | tables (rows : List (List (String × Node)))

abbrev Entries := List (String × Node)

def Entries.put (k : String) (n : Node) : Entries → Entries
  | [] => [(k, n)]
  | (k', n') :: rest => if k' = k then (k, n) :: rest else (k', n') :: put k n rest

def descend (byKey : Bool) (change : Origin → Entries → Option Entries) (origin : Origin) :
    List String → Entries → Option Entries
  | [], entries => change origin entries
  | part :: path, entries =>
    let implied : Origin := if byKey then .impliedByKey else .impliedByHeader
    match entries.lookup part with
    | none => do
      let inner ← descend byKey change implied path []
      some (Entries.put part (.table implied inner) entries)
    | some (.leaf _) => none
    | some (.table found inner) =>
      if byKey && found == .defined then none
      else do
        let inner ← descend byKey change found path inner
        some (Entries.put part (.table found inner) entries)
    | some (.tables rows) =>
      match rows.reverse with
      | [] => none
      | last :: earlier => do
        let last ← descend byKey change .defined path last
        some (Entries.put part (.tables (last :: earlier).reverse) entries)

def addValue (path : List String) (v : Value) (entries : Entries) : Option Entries :=
  match path.reverse with
  | [] => none
  | last :: parents =>
    descend true (fun origin inner =>
      if !parents.isEmpty && origin != .impliedByKey then none
      else if (inner.lookup last).isSome then none
      else some (inner ++ [(last, .leaf v)])) .defined parents.reverse entries

def addTable (path : List String) (entries : Entries) : Option Entries :=
  match path.reverse with
  | [] => none
  | last :: parents =>
    descend false (fun _ inner =>
      match inner.lookup last with
      | none => some (inner ++ [(last, .table .defined [])])
      | some (.table .impliedByHeader found) =>
        some (Entries.put last (.table .defined found) inner)
      | some _ => none) .defined parents.reverse entries

def addRow (path : List String) (entries : Entries) : Option Entries :=
  match path.reverse with
  | [] => none
  | last :: parents =>
    descend false (fun _ inner =>
      match inner.lookup last with
      | none => some (inner ++ [(last, .tables [[]])])
      | some (.tables rows) => some (Entries.put last (.tables (rows ++ [[]])) inner)
      | some _ => none) .defined parents.reverse entries

def addUnder (path key : List String) (v : Value) (entries : Entries) : Option Entries :=
  descend false (fun _ inner => addValue key v inner) .defined path entries

mutual

def Node.value : Node → Value
  | .leaf v => v
  | .table _ entries => .table (Node.values entries)
  | .tables rows => .array (Node.rowValues rows)

def Node.values : List (String × Node) → List (String × Value)
  | [] => []
  | (k, n) :: rest => (k, n.value) :: Node.values rest

def Node.rowValues : List (List (String × Node)) → List Value
  | [] => []
  | row :: rest => .table (Node.values row) :: Node.rowValues rest

end

def inlineTable (entries : List (List String × Value)) : Option Value := do
  let built ← entries.foldlM (fun built (k, v) => addValue k v built) ([] : Entries)
  some (.table (Node.values built))

def value : Nat → List Char → Option (Value × List Char)
  | 0, _ => none
  | depth + 1, cs =>
    match cs with
    | [] => none
    | '[' :: rest => do
      let (vs, rest) ← items (value depth) (rest.length + 1) rest
      if depth = 0 then none else some (.array vs, rest)
    | '{' :: rest =>
      if depth = 0 then none
      else
        match skipSpace rest with
        | '}' :: rest => some (.table [], rest)
        | rest => do
          let (entries, rest) ← pairs (value depth) (rest.length + 1) rest
          let v ← inlineTable entries
          some (v, rest)
    | 't' :: 'r' :: 'u' :: 'e' :: rest => some (.boolean true, rest)
    | 'f' :: 'a' :: 'l' :: 's' :: 'e' :: rest => some (.boolean false, rest)
    | c :: _ =>
      if c = '"' ∨ c.toNat = 39 then (string cs).map fun (s, rest) => (.text s, rest)
      else ((moment cs).or ((decimal cs).or (special cs))).or (integer cs)

def lineEnd (cs : List Char) : Option (List Char) :=
  match skipComment (skipSpace cs) with
  | [] => some []
  | rest => newline? rest

def header (closing : List Char) (cs : List Char) : Option (List String × List Char) := do
  let (k, rest) ← key cs
  let rest ← closing.foldlM (fun rest c => expect c rest) rest
  let rest ← lineEnd rest
  some (k, rest)

def lines : Nat → List String → Entries → List Char → Option Entries
  | 0, _, entries, _ => some entries
  | fuel + 1, current, entries, cs =>
    match skipSpace cs with
    | [] => some entries
    | '[' :: '[' :: rest => do
      let (k, rest) ← header [']', ']'] rest
      let entries ← addRow k entries
      lines fuel k entries rest
    | '[' :: rest => do
      let (k, rest) ← header [']'] rest
      let entries ← addTable k entries
      lines fuel k entries rest
    | c :: rest =>
      if c = '#' ∨ c = '\n' ∨ c = '\r' then do
        let rest ← lineEnd (c :: rest)
        lines fuel current entries rest
      else do
        let ((k, v), rest) ← pair (value maxDepth) (c :: rest)
        let entries ← addUnder current k v entries
        let rest ← lineEnd rest
        lines fuel current entries rest

/-- Reads a document. A byte order mark in front is passed over. -/
def read (text : String) : Option Value :=
  let cs := text.toList
  let cs := if cs.head? = some '\uFEFF' then cs.tail else cs
  (lines (cs.length + 1) [] [] cs).map fun entries => .table (Node.values entries)

end Parley.Toml
