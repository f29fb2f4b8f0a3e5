import Parley.Time.Instant
import Parley.Json.Basic
import Parley.Json.Decode

namespace Parley.Instant

def padded (width n : Nat) : List Char :=
  let digits := Nat.toDigits 10 n
  List.replicate (width - digits.length) '0' ++ digits

def yearText (year : Int) : List Char :=
  if 0 ≤ year ∧ year ≤ 9999 then padded 4 year.toNat
  else if 0 ≤ year then '+' :: padded 4 year.toNat
  else '-' :: padded 4 (-year).toNat

def format (t : Instant) : List Char :=
  let date := Date.ofDay (t.seconds / 86400)
  let second := t.secondOfDay.toNat
  let leap := t.nanoseconds / 1000000000
  yearText date.year ++ '-' :: padded 2 date.month ++ '-' :: padded 2 date.day ++
    'T' :: padded 2 (second / 3600) ++ ':' :: padded 2 (second / 60 % 60) ++
    ':' :: padded 2 (second % 60 + leap) ++
    '.' :: padded 3 (t.nanoseconds % 1000000000 / 1000000) ++ ['Z']

def text (t : Instant) : String :=
  String.ofList t.format

theorem text_canonical (t : Instant) : t.canonical.text = t.text := by
  have whole : (t.nanoseconds - t.nanoseconds % 1000000) / 1000000000 =
      t.nanoseconds / 1000000000 := by omega
  have part : (t.nanoseconds - t.nanoseconds % 1000000) % 1000000000 / 1000000 =
      t.nanoseconds % 1000000000 / 1000000 := by omega
  simp only [text, format, canonical, secondOfDay, whole, part]

def digit? (c : Char) : Option Nat :=
  if c.isDigit then some (c.toNat - 48) else none

def number? : Nat → Nat → List Char → Option (Nat × List Char)
  | 0, n, cs => some (n, cs)
  | _ + 1, _, [] => none
  | width + 1, n, c :: cs => do
    let d ← digit? c
    number? width (n * 10 + d) cs

def expect (c : Char) : List Char → Option (List Char)
  | [] => none
  | d :: cs => if d = c then some cs else none

def fraction? (cs : List Char) : Option (Nat × List Char) :=
  let digits := cs.takeWhile Char.isDigit
  if digits.isEmpty then none
  else
    let kept := (digits.take 9).map fun c => c.toNat - 48
    some (kept.foldl (fun n d => n * 10 + d) 0 * Nat.pow 10 (9 - kept.length),
      cs.dropWhile Char.isDigit)

/-- The offset of local time from universal time, in seconds. -/
def offset? : List Char → Option (Int × List Char)
  | [] => none
  | c :: cs =>
    if c = 'Z' ∨ c = 'z' then some (0, cs)
    else do
      let sign : Int ← if c = '+' then some 1 else if c = '-' ∨ c = '−' then some (-1) else none
      let (hours, cs) ← number? 2 0 cs
      let cs ← expect ':' cs
      let (minutes, cs) ← number? 2 0 cs
      if hours ≤ 23 ∧ minutes ≤ 59 then
        some (sign * ((hours * 60 + minutes) * 60 : Nat), cs)
      else none

def read? (cs : List Char) : Option Instant := do
  let (year, cs) ← number? 4 0 cs
  let cs ← expect '-' cs
  let (month, cs) ← number? 2 0 cs
  let cs ← expect '-' cs
  let (day, cs) ← number? 2 0 cs
  let cs ← match cs with
    | [] => none
    | c :: cs => if c = 'T' ∨ c = 't' ∨ c = ' ' then some cs else none
  let (hour, cs) ← number? 2 0 cs
  let cs ← expect ':' cs
  let (minute, cs) ← number? 2 0 cs
  let cs ← expect ':' cs
  let (second, cs) ← number? 2 0 cs
  let (nanoseconds, cs) ← match cs with
    | '.' :: cs => fraction? cs
    | cs => some (0, cs)
  let (offset, cs) ← offset? cs
  let date : Date := ⟨year, month, day⟩
  if cs.isEmpty ∧ date.isValid ∧ hour ≤ 23 ∧ minute ≤ 59 ∧ second ≤ 60 then
    let leap := second / 60
    of? (date.toDay * 86400 + ((hour * 60 + minute) * 60 + (second - leap) : Nat) - offset)
      (nanoseconds + leap * 1000000000)
  else none

def ofText? (s : String) : Option Instant :=
  read? s.toList

open Json

def toJson (t : Instant) : Json :=
  .text t.text

def decode (v : Reading) : Decoded Instant := do
  let s ← decodeText v
  match ofText? s with
  | some t => .ok t.canonical
  | none => .error .malformed

end Parley.Instant
