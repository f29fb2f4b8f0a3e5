import Parley.Time.Calendar

/-!
# Instants and spans

An instant counts seconds and nanoseconds of universal time. The nanoseconds of a second may run on
for another thousand million: that is a leap second, which follows its second and has no number of its
own. Only at the end of a minute is there a text for it, second 60.

Messages carry milliseconds. `Instant.canonical` cuts an instant down to what a message can carry.
-/

namespace Parley

structure Span where
  nanoseconds : Int
  deriving DecidableEq, Repr

namespace Span

def ofSeconds (n : Int) : Span := ⟨n * 1000000000⟩

def ofMilliseconds (n : Int) : Span := ⟨n * 1000000⟩

def ofMicroseconds (n : Int) : Span := ⟨n * 1000⟩

def maxMilliseconds : Int := 9223372036854775807

def seconds (s : Span) : Int := s.nanoseconds.tdiv 1000000000

def neg (s : Span) : Span := ⟨-s.nanoseconds⟩

def ofSeconds? (n : Int) : Option Span :=
  if -maxMilliseconds ≤ n * 1000 ∧ n * 1000 ≤ maxMilliseconds then some (ofSeconds n) else none

end Span

/-- A moment of universal time, leap seconds included. -/
structure Instant where
  seconds : Int
  nanoseconds : Nat
  nanoseconds_lt : nanoseconds < 2000000000
  deriving DecidableEq

namespace Instant

def of? (seconds : Int) (nanoseconds : Nat) : Option Instant :=
  if h : nanoseconds < 2000000000 ∧ (1000000000 ≤ nanoseconds → seconds % 60 = 59) then
    some ⟨seconds, nanoseconds, h.1⟩
  else none

def lt (t u : Instant) : Prop :=
  t.seconds < u.seconds ∨ (t.seconds = u.seconds ∧ t.nanoseconds < u.nanoseconds)

instance : LT Instant := ⟨lt⟩

instance : LE Instant := ⟨fun t u => ¬ u < t⟩

instance (t u : Instant) : Decidable (t < u) :=
  inferInstanceAs (Decidable (t.seconds < u.seconds ∨ _))

instance (t u : Instant) : Decidable (t ≤ u) :=
  inferInstanceAs (Decidable (¬ u < t))

/-- The instant at the precision of messages: milliseconds, the rest cut off. -/
def canonical (t : Instant) : Instant where
  seconds := t.seconds
  nanoseconds := t.nanoseconds - t.nanoseconds % 1000000
  nanoseconds_lt := by have := t.nanoseconds_lt; omega

def firstSecond : Int := -8334601228800

def lastSecond : Int := 8210266876799

def place? (seconds nanoseconds : Int) : Option Instant :=
  if h : (firstSecond ≤ seconds ∧ seconds ≤ lastSecond) ∧ nanoseconds.toNat < 2000000000 then
    some ⟨seconds, nanoseconds.toNat, h.2⟩
  else none

def carry? (seconds nanoseconds : Int) : Option Instant :=
  place? (seconds + nanoseconds / 1000000000) (nanoseconds % 1000000000)

def move? (seconds nanoseconds whole part : Int) : Option Instant :=
  if nanoseconds < 1000000000 then carry? (seconds + whole) (nanoseconds + part)
  else if 0 < whole ∨ (0 < part ∧ 2000000000 ≤ nanoseconds + part) then
    carry? (seconds + whole) (nanoseconds - 1000000000 + part)
  else if whole < 0 then carry? (seconds + 1 + whole) (nanoseconds - 1000000000 + part)
  else place? seconds (nanoseconds + part)

/-- Moves an instant by a span, unless it would leave the calendar's range. -/
def add? (t : Instant) (s : Span) : Option Instant :=
  move? t.seconds t.nanoseconds (s.nanoseconds.tdiv 1000000000) (s.nanoseconds.tmod 1000000000)

def secondOfDay (t : Instant) : Int := t.seconds % 86400

/-- The span from `u` to `t`. A leap second of one of them counts if the other is later in its own
day's course. -/
def since (t u : Instant) : Span :=
  let leap : Int :=
    if u.secondOfDay < t.secondOfDay ∧ 1000000000 ≤ u.nanoseconds then 1
    else if t.secondOfDay < u.secondOfDay ∧ 1000000000 ≤ t.nanoseconds then -1
    else 0
  ⟨(t.seconds - u.seconds + leap) * 1000000000 + (t.nanoseconds - u.nanoseconds : Int)⟩

def apart (t u : Instant) : Span :=
  if u < t then t.since u else u.since t

@[simp] theorem canonical_seconds (t : Instant) : t.canonical.seconds = t.seconds := rfl

@[simp] theorem canonical_canonical (t : Instant) : t.canonical.canonical = t.canonical := by
  have : ∀ n : Nat, n - n % 1000000 - (n - n % 1000000) % 1000000 = n - n % 1000000 := by omega
  simp [canonical, this]

end Instant

end Parley
