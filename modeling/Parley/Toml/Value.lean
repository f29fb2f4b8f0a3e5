import Parley.Json.Reading
import Parley.Text.Hex
import Parley.Time.Calendar

namespace Parley.Toml

inductive Value where
  | text (s : String)
  | integer (n : Int)
  | float
  | boolean (b : Bool)
  | moment
  | array (items : List Value)
  | table (entries : List (String × Value))

def isSpace (c : Char) : Bool := c == ' ' || c == '\t'

def skipSpace (cs : List Char) : List Char := cs.dropWhile isSpace

def expect (c : Char) : List Char → Option (List Char)
  | [] => none
  | d :: cs => if d = c then some cs else none

def newline? : List Char → Option (List Char)
  | '\n' :: rest => some rest
  | '\r' :: '\n' :: rest => some rest
  | _ => none

def isPlain (c : Char) : Bool := c == '\t' || (32 ≤ c.toNat && c.toNat != 127)

def skipComment : List Char → List Char
  | '#' :: rest => rest.dropWhile isPlain
  | rest => rest

def skipLines (comments : Bool) : Nat → List Char → List Char
  | 0, cs => cs
  | fuel + 1, cs =>
    let rest := if comments then skipComment (skipSpace cs) else skipSpace cs
    match newline? rest with
    | some rest => skipLines comments fuel rest
    | none => rest

def skipGaps (cs : List Char) : List Char := skipLines true cs.length cs

def hexNumber? (digits : List Char) : Option Nat :=
  digits.foldlM (fun n c => (Text.Hex.value? c).map (n * 16 + ·)) 0

def scalar? (width : Nat) (cs : List Char) : Option (Char × List Char) :=
  let digits := cs.take width
  if digits.length < width then none
  else do
    let n ← hexNumber? digits
    if n < 0xD800 ∨ (0xDFFF < n ∧ n < 0x110000) then some (Char.ofNat n, cs.drop width) else none

def escape? : List Char → Option (Char × List Char)
  | 'b' :: rest => some ('\x08', rest)
  | 't' :: rest => some ('\t', rest)
  | 'n' :: rest => some ('\n', rest)
  | 'f' :: rest => some ('\x0c', rest)
  | 'r' :: rest => some ('\r', rest)
  | '"' :: rest => some ('"', rest)
  | '\\' :: rest => some ('\\', rest)
  | 'u' :: rest => scalar? 4 rest
  | 'U' :: rest => scalar? 8 rest
  | _ => none

def basic : Nat → List Char → Option (List Char × List Char)
  | 0, _ => none
  | _, [] => none
  | fuel + 1, c :: rest =>
    if c = '"' then some ([], rest)
    else if c = '\\' then do
      let (c, rest) ← escape? rest
      let (s, rest) ← basic fuel rest
      some (c :: s, rest)
    else if isPlain c then do
      let (s, rest) ← basic fuel rest
      some (c :: s, rest)
    else none

def literal : List Char → Option (List Char × List Char)
  | [] => none
  | c :: rest =>
    if c.toNat = 39 then some ([], rest)
    else if isPlain c then do
      let (s, rest) ← literal rest
      some (c :: s, rest)
    else none

def lineEndingEscape? (cs : List Char) : Option (List Char) :=
  (newline? (skipSpace cs)).map fun rest => skipLines false rest.length rest

/-- A string of several lines, after the opening quotes. Up to two quotes may stand within it, and
right before the closing ones. -/
def multiline (quote : Char) (escapes : Bool) : Nat → List Char → Option (List Char × List Char)
  | 0, _ => none
  | _, [] => none
  | fuel + 1, c :: rest =>
    match newline? (c :: rest) with
    | some rest => do
      let (s, rest) ← multiline quote escapes fuel rest
      some ('\n' :: s, rest)
    | none =>
      if c = quote then
        let run := (c :: rest).takeWhile (· == quote)
        let rest := (c :: rest).dropWhile (· == quote)
        if run.length < 3 then do
          let (s, rest) ← multiline quote escapes fuel rest
          some (run ++ s, rest)
        else if run.length ≤ 5 then some (run.drop 3, rest)
        else none
      else if c = '\\' && escapes then
        match lineEndingEscape? rest with
        | some rest => multiline quote escapes fuel rest
        | none => do
          let (c, rest) ← escape? rest
          let (s, rest) ← multiline quote escapes fuel rest
          some (c :: s, rest)
      else if isPlain c then do
        let (s, rest) ← multiline quote escapes fuel rest
        some (c :: s, rest)
      else none

def skipFirstNewline (cs : List Char) : List Char := (newline? cs).getD cs

def string (cs : List Char) : Option (String × List Char) := do
  let apostrophe := Char.ofNat 39
  let (s, rest) ← match cs with
    | '"' :: '"' :: '"' :: rest => multiline '"' true (rest.length + 1) (skipFirstNewline rest)
    | '"' :: rest => basic (rest.length + 1) rest
    | a :: b :: c :: rest =>
      if a = apostrophe ∧ b = apostrophe ∧ c = apostrophe then
        multiline apostrophe false (rest.length + 1) (skipFirstNewline rest)
      else if a = apostrophe then literal (b :: c :: rest)
      else none
    | a :: rest => if a = apostrophe then literal rest else none
    | [] => none
  some (String.ofList s, rest)

def digits (isDigit : Char → Bool) : List Char → Option (List Char × List Char)
  | [] => none
  | c :: rest => if isDigit c then some (more c rest) else none
where
  more (c : Char) : List Char → List Char × List Char
    | [] => ([c], [])
    | '_' :: d :: rest =>
      if isDigit d then
        let (ds, rest) := more d rest
        (c :: ds, rest)
      else ([c], '_' :: d :: rest)
    | d :: rest =>
      if isDigit d then
        let (ds, rest) := more d rest
        (c :: ds, rest)
      else ([c], d :: rest)

def sign : List Char → Bool × List Char
  | '-' :: rest => (true, rest)
  | '+' :: rest => (false, rest)
  | rest => (false, rest)

def wholeDigits : List Char → Option (List Char × List Char)
  | '0' :: rest => some (['0'], rest)
  | cs => digits Char.isDigit cs

def decimalValue (ds : List Char) : Nat :=
  Json.natOfDigits (ds.map fun c => c.toNat - 48)

def bounded (n : Int) (rest : List Char) : Option (Value × List Char) :=
  if -Int.pow 2 63 ≤ n ∧ n < Int.pow 2 63 then some (.integer n, rest) else none

def based (base : Nat) (cs : List Char) : Option (Value × List Char) := do
  let isDigit (c : Char) : Bool := (Text.Hex.value? c).any (· < base)
  let (ds, rest) ← digits isDigit cs
  bounded (ds.foldl (fun n c => n * base + (Text.Hex.value? c).getD 0) 0) rest

def integer : List Char → Option (Value × List Char)
  | '0' :: 'x' :: rest => based 16 rest
  | '0' :: 'o' :: rest => based 8 rest
  | '0' :: 'b' :: rest => based 2 rest
  | cs => do
    let (negative, rest) := sign cs
    let (ds, rest) ← wholeDigits rest
    let n : Int := decimalValue ds
    bounded (if negative then -n else n) rest

def exponent : List Char → Option (Int × List Char)
  | c :: rest =>
    if c = 'e' ∨ c = 'E' then do
      let (negative, rest) := sign rest
      let (ds, rest) ← digits Char.isDigit rest
      let n : Int := decimalValue ds
      some (if negative then -n else n, rest)
    else none
  | [] => none

def decimal (cs : List Char) : Option (Value × List Char) := do
  let (negative, rest) := sign cs
  let (whole, rest) ← wholeDigits rest
  let (fraction, rest) ← match rest with
    | '.' :: rest => (digits Char.isDigit rest).map fun (ds, rest) => (some ds, rest)
    | rest => some (none, rest)
  let (power, rest) := match exponent rest with
    | some (n, rest) => (some n, rest)
    | none => (none, rest)
  let values (ds : List Char) : List Nat := ds.map fun c => c.toNat - 48
  let numeral : Json.Numeral := ⟨negative, values whole, fraction.map values, power⟩
  if (fraction.isSome || power.isSome) && (negative || numeral.inRange) then some (.float, rest)
  else none

def special (cs : List Char) : Option (Value × List Char) :=
  match (sign cs).2 with
  | 'i' :: 'n' :: 'f' :: rest => some (.float, rest)
  | 'n' :: 'a' :: 'n' :: rest => some (.float, rest)
  | _ => none

def field (width low high : Nat) (cs : List Char) : Option (Nat × List Char) :=
  let ds := cs.take width
  let n := decimalValue ds
  if ds.length = width ∧ ds.all Char.isDigit ∧ low ≤ n ∧ n ≤ high then some (n, cs.drop width)
  else none

def date (cs : List Char) : Option (List Char) := do
  let (year, cs) ← field 4 0 9999 cs
  let cs ← expect '-' cs
  let (month, cs) ← field 2 1 12 cs
  let cs ← expect '-' cs
  let (day, cs) ← field 2 1 31 cs
  if (Date.mk year month day).isValid then some cs else none

def time (cs : List Char) : Option (List Char) := do
  let (_, cs) ← field 2 0 23 cs
  let cs ← expect ':' cs
  let (_, cs) ← field 2 0 59 cs
  let cs ← expect ':' cs
  let (_, cs) ← field 2 0 60 cs
  match cs with
  | '.' :: c :: rest => if c.isDigit then some (rest.dropWhile Char.isDigit) else some cs
  | cs => some cs

def offset : List Char → Option (List Char)
  | [] => none
  | c :: cs =>
    if c = 'Z' ∨ c = 'z' then some cs
    else if c = '+' ∨ c = '-' then do
      let (_, cs) ← field 2 0 23 cs
      let cs ← expect ':' cs
      let (_, cs) ← field 2 0 59 cs
      some cs
    else none

def timeAfterDate : List Char → Option (List Char)
  | [] => none
  | c :: cs =>
    if c = 'T' ∨ c = 't' ∨ c = ' ' then do
      let rest ← time cs
      some ((offset rest).getD rest)
    else none

def moment (cs : List Char) : Option (Value × List Char) :=
  match date cs with
  | some rest => some (.moment, (timeAfterDate rest).getD rest)
  | none => (time cs).map fun rest => (.moment, rest)

def isKeyChar (c : Char) : Bool := c.isAlphanum || c == '_' || c == '-'

def keyPart (cs : List Char) : Option (String × List Char) :=
  match cs with
  | '"' :: rest => (basic (rest.length + 1) rest).map fun (s, rest) => (String.ofList s, rest)
  | c :: rest =>
    if c.toNat = 39 then (literal rest).map fun (s, rest) => (String.ofList s, rest)
    else
      let s := cs.takeWhile isKeyChar
      if s.isEmpty then none else some (String.ofList s, cs.dropWhile isKeyChar)
  | [] => none

def keyParts : Nat → List Char → Option (List String × List Char)
  | 0, _ => none
  | fuel + 1, cs => do
    let (part, rest) ← keyPart (skipSpace cs)
    match skipSpace rest with
    | '.' :: rest => do
      let (parts, rest) ← keyParts fuel rest
      some (part :: parts, rest)
    | rest => some ([part], rest)

/-- How deep arrays and inline tables may be nested, and how many parts a key may have: one less. -/
def maxDepth : Nat := 80

def key (cs : List Char) : Option (List String × List Char) := do
  let (parts, rest) ← keyParts (cs.length + 1) cs
  if parts.length < maxDepth then some (parts, rest) else none

def items (value : List Char → Option (Value × List Char)) :
    Nat → List Char → Option (List Value × List Char)
  | 0, _ => none
  | fuel + 1, cs =>
    match skipGaps cs with
    | ']' :: rest => some ([], rest)
    | cs => do
      let (v, rest) ← value cs
      match skipGaps rest with
      | ']' :: rest => some ([v], rest)
      | ',' :: rest => do
        let (more, rest) ← items value fuel rest
        some (v :: more, rest)
      | _ => none

def pair (value : List Char → Option (Value × List Char)) (cs : List Char) :
    Option ((List String × Value) × List Char) := do
  let (k, rest) ← key cs
  let rest ← expect '=' rest
  let (v, rest) ← value (skipSpace rest)
  some ((k, v), rest)

def pairs (value : List Char → Option (Value × List Char)) :
    Nat → List Char → Option (List (List String × Value) × List Char)
  | 0, _ => none
  | fuel + 1, cs => do
    let (p, rest) ← pair value cs
    match skipSpace rest with
    | '}' :: rest => some ([p], rest)
    | ',' :: rest => do
      let (more, rest) ← pairs value fuel rest
      some (p :: more, rest)
    | _ => none

end Parley.Toml
