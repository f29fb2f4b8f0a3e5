import Parley.Text.Hex

/-!
# Reading JSON text

A text is read once, from the front, into a `Reading`: the value it spells as far as it is well
formed. Where the text breaks off or goes wrong the reading ends in `broken` and every array and
object around that place stays open, so a decoder that goes through a reading from the front meets
the first fault of the text where a reader of the text would.

A string literal may be well formed and still spell no text, because an escaped surrogate stands
alone. It is kept as `garbled`: harmless where the value is passed over, a fault where it is wanted.
-/

namespace Parley.Json

structure Numeral where
  negative : Bool
  whole : List Nat
  fraction : Option (List Nat)
  exponent : Option Int
  deriving DecidableEq, Repr

inductive Reading where
  | null
  | bool (b : Bool)
  | number (n : Numeral)
  | text (s : String)
  /-- A string literal that spells no text. -/
  | garbled
  | array (items : List Reading) (closed : Bool)
  /-- The members in the order written; a key that spells no text is `none`. -/
  | object (members : List (Option String × Reading)) (closed : Bool)
  /-- An object without members that was read ahead of its use. It also stands for the absence of
  a value, where one may be absent. -/
  | hollow
  | broken

def isSpace (c : Char) : Bool :=
  c == ' ' || c == '\n' || c == '\t' || c == '\r'

def skipSpace (cs : List Char) : List Char :=
  cs.dropWhile isSpace

def hexUnit? (a b c d : Char) : Option Nat := do
  let a ← Text.Hex.value? a
  let b ← Text.Hex.value? b
  let c ← Text.Hex.value? c
  let d ← Text.Hex.value? d
  some (((a * 16 + b) * 16 + c) * 16 + d)

def shortEscape? (c : Char) : Option Char :=
  if c = '"' then some '"'
  else if c = '\\' then some '\\'
  else if c = '/' then some '/'
  else if c = 'b' then some '\x08'
  else if c = 'f' then some '\x0c'
  else if c = 'n' then some '\n'
  else if c = 'r' then some '\r'
  else if c = 't' then some '\t'
  else none

def spell (c : Char) : Option (Option (List Char) × List Char) →
    Option (Option (List Char) × List Char) :=
  Option.map fun (spelled, rest) => (spelled.map (c :: ·), rest)

def garble : Option (Option (List Char) × List Char) → Option (Option (List Char) × List Char) :=
  Option.map fun (_, rest) => (none, rest)

def readText : List Char → Option (Option (List Char) × List Char)
  | [] => none
  | '"' :: rest => some (some [], rest)
  | '\\' :: 'u' :: a :: b :: c :: d :: '\\' :: 'u' :: e :: f :: g :: h :: rest =>
    match hexUnit? a b c d with
    | none => none
    | some high =>
      if 0xD800 ≤ high ∧ high ≤ 0xDBFF then
        match hexUnit? e f g h with
        | none => none
        | some low =>
          if 0xDC00 ≤ low ∧ low ≤ 0xDFFF then
            spell (Char.ofNat (0x10000 + (high - 0xD800) * 0x400 + (low - 0xDC00))) (readText rest)
          else garble (readText ('\\' :: 'u' :: e :: f :: g :: h :: rest))
      else if 0xDC00 ≤ high ∧ high ≤ 0xDFFF then
        garble (readText ('\\' :: 'u' :: e :: f :: g :: h :: rest))
      else spell (Char.ofNat high) (readText ('\\' :: 'u' :: e :: f :: g :: h :: rest))
  | '\\' :: 'u' :: a :: b :: c :: d :: rest =>
    match hexUnit? a b c d with
    | none => none
    | some unit =>
      if 0xD800 ≤ unit ∧ unit ≤ 0xDFFF then garble (readText rest)
      else spell (Char.ofNat unit) (readText rest)
  | '\\' :: e :: rest =>
    match shortEscape? e with
    | none => none
    | some c => spell c (readText rest)
  | c :: rest => if c.toNat < 32 then none else spell c (readText rest)

def readDigits (cs : List Char) : List Nat × List Char :=
  ((cs.takeWhile Char.isDigit).map fun c => c.toNat - 48, cs.dropWhile Char.isDigit)

def readWhole (cs : List Char) : Option (List Nat × List Char) :=
  match readDigits cs with
  | ([], _) => none
  | (0 :: _ :: _, _) => none
  | (digits, rest) => some (digits, rest)

def readFraction : List Char → Option (Option (List Nat) × List Char)
  | '.' :: rest =>
    match readDigits rest with
    | ([], _) => none
    | (digits, rest) => some (some digits, rest)
  | rest => some (none, rest)

def natOfDigits (digits : List Nat) : Nat :=
  digits.foldl (fun n d => n * 10 + d) 0

def readExponent : List Char → Option (Option Int × List Char)
  | e :: rest =>
    if e = 'e' ∨ e = 'E' then
      let (negative, rest) :=
        match rest with
        | '-' :: rest => (true, rest)
        | '+' :: rest => (false, rest)
        | rest => (false, rest)
      match readDigits rest with
      | ([], _) => none
      | (digits, rest) =>
        let n : Int := natOfDigits digits
        some (some (if negative then -n else n), rest)
    else some (none, e :: rest)
  | [] => some (none, [])

def readNumeral (cs : List Char) : Option (Numeral × List Char) := do
  let (negative, cs) :=
    match cs with
    | '-' :: rest => (true, rest)
    | rest => (false, rest)
  let (whole, cs) ← readWhole cs
  let (fraction, cs) ← readFraction cs
  let (exponent, cs) ← readExponent cs
  some (⟨negative, whole, fraction, exponent⟩, cs)

mutual

/-- Reads a value; the text after it is `none` if the text went wrong on the way. -/
def readValue : Nat → List Char → Reading × Option (List Char)
  | 0, _ => (.broken, none)
  | fuel + 1, cs =>
    match skipSpace cs with
    | 'n' :: 'u' :: 'l' :: 'l' :: rest => (.null, some rest)
    | 't' :: 'r' :: 'u' :: 'e' :: rest => (.bool true, some rest)
    | 'f' :: 'a' :: 'l' :: 's' :: 'e' :: rest => (.bool false, some rest)
    | '"' :: rest =>
      match readText rest with
      | none => (.broken, none)
      | some (none, rest) => (.garbled, some rest)
      | some (some spelled, rest) => (.text (String.ofList spelled), some rest)
    | '[' :: rest =>
      match skipSpace rest with
      | ']' :: rest => (.array [] true, some rest)
      | rest =>
        let (items, rest) := readItems fuel rest
        (.array items rest.isSome, rest)
    | '{' :: rest =>
      match skipSpace rest with
      | '}' :: rest => (.object [] true, some rest)
      | rest =>
        let (members, rest) := readMembers fuel rest
        (.object members rest.isSome, rest)
    | rest =>
      match readNumeral rest with
      | none => (.broken, none)
      | some (n, rest) => (.number n, some rest)

def readItems : Nat → List Char → List Reading × Option (List Char)
  | 0, _ => ([], none)
  | fuel + 1, cs =>
    match readValue fuel cs with
    | (v, none) => ([v], none)
    | (v, some rest) =>
      match skipSpace rest with
      | ']' :: rest => ([v], some rest)
      | ',' :: rest =>
        let (more, rest) := readItems fuel rest
        (v :: more, rest)
      | _ => ([v], none)

def readMembers : Nat → List Char → List (Option String × Reading) × Option (List Char)
  | 0, _ => ([], none)
  | fuel + 1, cs =>
    match skipSpace cs with
    | '"' :: rest =>
      match readText rest with
      | none => ([], none)
      | some (key, rest) =>
        let key := key.map String.ofList
        match skipSpace rest with
        | ':' :: rest =>
          match readValue fuel rest with
          | (v, none) => ([(key, v)], none)
          | (v, some rest) =>
            match skipSpace rest with
            | '}' :: rest => ([(key, v)], some rest)
            | ',' :: rest =>
              let (more, rest) := readMembers fuel rest
              ((key, v) :: more, rest)
            | _ => ([(key, v)], none)
        | _ => ([(key, .broken)], none)
    | _ => ([], none)

end

def read (text : String) : Reading × Bool :=
  let cs := text.toList
  match readValue (2 * cs.length + 2) cs with
  | (v, none) => (v, false)
  | (v, some rest) => (v, (skipSpace rest).isEmpty)

/-- Whether a numeral is within the range of double precision: the nearest double is finite. -/
def Numeral.inRange (n : Numeral) : Bool :=
  let digits := (n.whole ++ n.fraction.getD []).dropWhile (· == 0)
  let places : Int := (n.fraction.getD []).length
  let exponent := n.exponent.getD 0 - places
  if digits.isEmpty then true
  else if exponent + digits.length > 310 then false
  else if exponent + digits.length < 308 then true
  else
    let limit := Nat.pow 2 1024 - Nat.pow 2 970
    if 0 ≤ exponent then natOfDigits digits * Nat.pow 10 exponent.toNat < limit
    else natOfDigits digits < limit * Nat.pow 10 (-exponent).toNat

mutual

def Reading.ahead (depth : Nat) : Reading → Option Reading
  | .garbled => none
  | .broken => none
  | .number n => if n.inRange then some (.number n) else none
  | .array items closed =>
    match depth with
    | 0 => none
    | depth + 1 => do
      let items ← aheadItems depth items
      if closed then some (.array items true) else none
  | .object members closed =>
    match depth with
    | 0 => none
    | depth + 1 => do
      let members ← aheadMembers depth members
      if !closed then none
      else if members.isEmpty then some .hollow
      else some (.object members true)
  | v => some v

def Reading.aheadItems (depth : Nat) : List Reading → Option (List Reading)
  | [] => some []
  | v :: rest => do
    let v ← v.ahead depth
    let rest ← aheadItems depth rest
    some (v :: rest)

def Reading.aheadMembers (depth : Nat) :
    List (Option String × Reading) → Option (List (Option String × Reading))
  | [] => some []
  | (k, v) :: rest => do
    let k ← k
    let v ← v.ahead depth
    let rest ← aheadMembers depth rest
    some ((some k, v) :: rest)

end

end Parley.Json
