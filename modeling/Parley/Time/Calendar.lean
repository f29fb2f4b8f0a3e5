namespace Parley

structure Date where
  year : Int
  month : Nat
  day : Nat
  deriving DecidableEq, Repr

namespace Date

def isLeap (year : Int) : Bool :=
  year % 4 == 0 && (year % 100 != 0 || year % 400 == 0)

def monthLengths (year : Int) : List Nat :=
  [31, if isLeap year then 29 else 28, 31, 30, 31, 30, 31, 31, 30, 31, 30, 31]

def daysBeforeYear (year : Int) : Int :=
  let p := year - 1
  365 * p + p / 4 - p / 100 + p / 400

def epoch : Int := 719162

/-- The year a day lies in, the day counted from 0001-01-01. The mean length of a year gives it to
within one. -/
def yearOf (n : Int) : Int :=
  let guess := n * 400 / 146097 + 1
  if daysBeforeYear (guess + 1) ≤ n then guess + 1
  else if daysBeforeYear guess ≤ n then guess
  else guess - 1

def monthOf (month : Nat) : List Nat → Nat → Nat × Nat
  | [], day => (month, day + 1)
  | length :: rest, day =>
    if day < length then (month, day + 1) else monthOf (month + 1) rest (day - length)

def ofDay (day : Int) : Date :=
  let n := day + epoch
  let year := yearOf n
  let (month, d) := monthOf 1 (monthLengths year) (n - daysBeforeYear year).toNat
  ⟨year, month, d⟩

def isValid (d : Date) : Bool :=
  match (monthLengths d.year)[d.month - 1]? with
  | none => false
  | some length => 1 ≤ d.month && 1 ≤ d.day && d.day ≤ length

def toDay (d : Date) : Int :=
  let before := ((monthLengths d.year).take (d.month - 1)).foldl Nat.add 0
  daysBeforeYear d.year - epoch + before + d.day - 1

end Date

end Parley
