import Mathlib.Data.Nat.Digits.Lemmas
import Parley.Time.Text

namespace Parley

namespace Date

variable {day n : Int} {month d : Nat} {lengths : List Nat}

theorem sum_monthOf (month d : Nat) (lengths : List Nat) :
    month ≤ (monthOf month lengths d).1 ∧ 1 ≤ (monthOf month lengths d).2 ∧
      (lengths.take ((monthOf month lengths d).1 - month)).sum + (monthOf month lengths d).2 =
        d + 1 := by
  induction lengths generalizing month d with
  | nil => simp [monthOf]
  | cons length rest ih =>
    unfold monthOf
    split
    · simp
    next past =>
      obtain ⟨later, first, sum⟩ := ih (month + 1) (d - length)
      generalize monthOf (month + 1) rest (d - length) = found at later first sum
      have gone : found.1 - month = found.1 - (month + 1) + 1 := by omega
      rw [gone, List.take_succ_cons, List.sum_cons]
      omega

theorem fst_monthOf_le (month d : Nat) (lengths : List Nat) :
    (monthOf month lengths d).1 ≤ month + lengths.length := by
  induction lengths generalizing month d with
  | nil => simp [monthOf]
  | cons length rest ih =>
    unfold monthOf
    split
    · simp
    · have := ih (month + 1) (d - length)
      simp only [List.length_cons]
      omega

theorem snd_monthOf_le {bound : Nat} (short : ∀ length ∈ lengths, length ≤ bound)
    (inside : d < lengths.sum + bound) : (monthOf month lengths d).2 ≤ bound := by
  induction lengths generalizing month d with
  | nil =>
    simp only [List.sum_nil] at inside
    simp only [monthOf]
    omega
  | cons length rest ih =>
    obtain ⟨first, others⟩ := List.forall_mem_cons.1 short
    rw [List.sum_cons] at inside
    unfold monthOf
    split
    · dsimp only
      omega
    · exact ih others (by omega)

theorem yearOf_bounds (n : Int) : daysBeforeYear (yearOf n) ≤ n ∧ n < daysBeforeYear (yearOf n + 1) := by
  unfold yearOf daysBeforeYear
  dsimp only
  split
  · omega
  · split
    · omega
    · omega

theorem daysBeforeYear_succ_le (year : Int) : daysBeforeYear (year + 1) ≤ daysBeforeYear year + 366 := by
  unfold daysBeforeYear
  dsimp only
  omega

theorem length_monthLengths (year : Int) : (monthLengths year).length = 12 := rfl

theorem mem_monthLengths {year : Int} {length : Nat} (mem : length ∈ monthLengths year) :
    length ≤ 31 := by
  unfold monthLengths at mem
  split at mem <;> simp at mem <;> omega

theorem le_sum_monthLengths (year : Int) : 365 ≤ (monthLengths year).sum := by
  unfold monthLengths
  split <;> simp

def dayOfYear (d : Date) : Nat :=
  ((monthLengths d.year).take (d.month - 1)).sum + d.day

theorem toDay_eq (d : Date) : d.toDay = daysBeforeYear d.year - epoch + d.dayOfYear - 1 := by
  have add_eq : ((monthLengths d.year).take (d.month - 1)).foldl Nat.add 0 =
      ((monthLengths d.year).take (d.month - 1)).sum :=
    List.sum_eq_foldl_nat.symm
  unfold toDay dayOfYear
  dsimp only
  rw [add_eq]
  omega

theorem toDay_ofDay (day : Int) : (ofDay day).toDay = day := by
  obtain ⟨start, -⟩ := yearOf_bounds (day + epoch)
  obtain ⟨-, -, sum⟩ := sum_monthOf 1 (day + epoch - daysBeforeYear (yearOf (day + epoch))).toNat
    (monthLengths (yearOf (day + epoch)))
  have nth : (ofDay day).dayOfYear =
      (day + epoch - daysBeforeYear (yearOf (day + epoch))).toNat + 1 := sum
  have year_eq : (ofDay day).year = yearOf (day + epoch) := rfl
  rw [toDay_eq, nth, year_eq]
  omega

theorem ofDay_injective {day day' : Int} (same : ofDay day = ofDay day') : day = day' := by
  rw [← toDay_ofDay day, same, toDay_ofDay]

theorem month_ofDay_lt (day : Int) : (ofDay day).month < 100 := by
  have last := fst_monthOf_le 1 (day + epoch - daysBeforeYear (yearOf (day + epoch))).toNat
    (monthLengths (yearOf (day + epoch)))
  rw [length_monthLengths] at last
  unfold ofDay
  dsimp only
  omega

theorem day_ofDay_lt (day : Int) : (ofDay day).day < 100 := by
  obtain ⟨-, inside⟩ := yearOf_bounds (day + epoch)
  have year := daysBeforeYear_succ_le (yearOf (day + epoch))
  have months := le_sum_monthLengths (yearOf (day + epoch))
  have last : (ofDay day).day ≤ 31 :=
    snd_monthOf_le (fun _ mem => mem_monthLengths mem) (by omega)
  omega

end Date

namespace Instant

variable {t u : Instant} {width n m : Nat}

theorem length_padded (positive : 0 < width) (short : n < 10 ^ width) : (padded width n).length = width := by
  have := (Nat.length_toDigits_le_iff (b := 10) (by decide) positive).2 short
  simp only [padded, List.length_append, List.length_replicate]
  omega

theorem ofDigitChars_padded (width n : Nat) : Nat.ofDigitChars 10 (padded width n) 0 = n := by
  simp [padded, Nat.ofDigitChars_append]

theorem padded_injective (same : padded width n = padded width m) : n = m := by
  rw [← ofDigitChars_padded width n, same, ofDigitChars_padded]

theorem isDigit_of_mem_padded {c : Char} (mem : c ∈ padded width n) : c.isDigit = true := by
  obtain zero | digit := List.mem_append.1 mem
  · rw [List.eq_of_mem_replicate zero]
    rfl
  · exact Nat.isDigit_of_mem_toDigits (by decide) (by decide) digit

theorem padded_ne_cons {c : Char} {rest : List Char} (sign : c.isDigit = false) :
    padded width n ≠ c :: rest := by
  intro same
  have digit := isDigit_of_mem_padded (same ▸ List.mem_cons_self : c ∈ padded width n)
  rw [sign] at digit
  cases digit

theorem yearText_cases (year : Int) : (0 ≤ year ∧ yearText year = padded 4 year.toNat) ∨
    (0 ≤ year ∧ yearText year = '+' :: padded 4 year.toNat) ∨
    (year < 0 ∧ yearText year = '-' :: padded 4 (-year).toNat) := by
  unfold yearText
  split
  next short => exact .inl ⟨short.1, rfl⟩
  · split
    next positive => exact .inr (.inl ⟨positive, rfl⟩)
    next negative => exact .inr (.inr ⟨by omega, rfl⟩)

theorem yearText_injective {year year' : Int} (same : yearText year = yearText year') :
    year = year' := by
  obtain ⟨sign, text⟩ | ⟨sign, text⟩ | ⟨sign, text⟩ := yearText_cases year <;>
    obtain ⟨sign', text'⟩ | ⟨sign', text'⟩ | ⟨sign', text'⟩ := yearText_cases year' <;>
    rw [text, text'] at same
  · have := padded_injective same
    omega
  · exact absurd same (padded_ne_cons (by decide))
  · exact absurd same (padded_ne_cons (by decide))
  · exact absurd same.symm (padded_ne_cons (by decide))
  · have := padded_injective (List.cons.inj same).2
    omega
  · exact absurd (List.cons.inj same).1 (by decide)
  · exact absurd same.symm (padded_ne_cons (by decide))
  · exact absurd (List.cons.inj same).1 (by decide)
  · have := padded_injective (List.cons.inj same).2
    omega

theorem append_padded_inj {before before' : List Char} {c : Char} (positive : 0 < width)
    (short : n < 10 ^ width) (short' : m < 10 ^ width)
    (same : before ++ c :: padded width n = before' ++ c :: padded width m) :
    before = before' ∧ n = m := by
  have lengths : (c :: padded width n).length = (c :: padded width m).length := by
    simp [length_padded positive, short, short']
  obtain ⟨before_eq, field_eq⟩ := List.append_inj' same lengths
  exact ⟨before_eq, padded_injective (List.cons.inj field_eq).2⟩

/-- That a leap second, if this is in one, ends its minute. -/
def Regular (t : Instant) : Prop :=
  1000000000 ≤ t.nanoseconds → t.seconds % 60 = 59

instance : DecidablePred Regular := fun _ => inferInstanceAs (Decidable (_ → _))

theorem regular_of_of? {seconds : Int} {nanoseconds : Nat} (made : of? seconds nanoseconds = some t) :
    t.Regular := by
  unfold of? at made
  split at made
  next fits =>
    cases made
    exact fits.2
  · cases made

/-- The instant as a message carries it: milliseconds, the rest cut off. A leap second that does not end
its minute has no text of its own and goes as the second after it. -/
def carried (t : Instant) : Instant :=
  if t.Regular then t.canonical
  else canonical ⟨t.seconds + 1, t.nanoseconds - 1000000000, by have := t.nanoseconds_lt; omega⟩

theorem Regular.carried_eq (regular : t.Regular) : t.carried = t.canonical :=
  if_pos regular

theorem regular_canonical : t.canonical.Regular ↔ t.Regular := by
  unfold Regular canonical
  dsimp only
  constructor
  · intro regular long
    exact regular (by omega)
  · intro regular long
    exact regular (by omega)

theorem regular_carried (t : Instant) : t.carried.Regular := by
  have := t.nanoseconds_lt
  unfold carried
  split
  next regular => exact regular_canonical.2 regular
  next => exact regular_canonical.2 fun long => absurd long (by dsimp only; omega)

@[simp] theorem canonical_carried (t : Instant) : t.carried.canonical = t.carried := by
  unfold carried
  split <;> exact canonical_canonical _

@[simp] theorem carried_carried (t : Instant) : t.carried.carried = t.carried := by
  rw [t.regular_carried.carried_eq, canonical_carried]

theorem carried_eq_self_iff : t.carried = t ↔ t.Regular ∧ t.canonical = t := by
  constructor
  · intro same
    rw [← same]
    exact ⟨t.regular_carried, t.canonical_carried⟩
  · rintro ⟨regular, whole⟩
    rw [regular.carried_eq, whole]

theorem text_carried (t : Instant) : t.carried.text = t.text := by
  unfold carried
  split
  next => exact t.text_canonical
  next irregular =>
    rw [text_canonical]
    obtain ⟨long, inside⟩ := Classical.not_imp.1 irregular
    have t_lt := t.nanoseconds_lt
    have day : (t.seconds + 1) / 86400 = t.seconds / 86400 := by omega
    have hour : ((t.seconds + 1) % 86400).toNat / 3600 = (t.seconds % 86400).toNat / 3600 := by omega
    have minute : ((t.seconds + 1) % 86400).toNat / 60 % 60 =
        (t.seconds % 86400).toNat / 60 % 60 := by omega
    have second : ((t.seconds + 1) % 86400).toNat % 60 + (t.nanoseconds - 1000000000) / 1000000000 =
        (t.seconds % 86400).toNat % 60 + t.nanoseconds / 1000000000 := by omega
    have part : (t.nanoseconds - 1000000000) % 1000000000 = t.nanoseconds % 1000000000 := by omega
    simp only [text, format, secondOfDay, day, hour, minute, second, part]

theorem canonical_eq_of_text_eq (regular : t.Regular) (regular' : u.Regular)
    (same : t.text = u.text) : t.canonical = u.canonical := by
  replace same := String.ofList_injective same
  unfold format at same
  dsimp only at same
  have day := Date.day_ofDay_lt
  have month := Date.month_ofDay_lt
  have t_lt := t.nanoseconds_lt
  have u_lt := u.nanoseconds_lt
  simp only [secondOfDay] at same
  -- field by field from the end, as the year in front has no fixed width
  obtain ⟨same, milliseconds⟩ := append_padded_inj (by decide) (by omega) (by omega)
    (List.append_cancel_right same)
  obtain ⟨same, second⟩ := append_padded_inj (by decide) (by omega) (by omega) same
  obtain ⟨same, minute⟩ := append_padded_inj (by decide) (by omega) (by omega) same
  obtain ⟨same, hour⟩ := append_padded_inj (by decide) (by omega) (by omega) same
  obtain ⟨same, day_eq⟩ := append_padded_inj (by decide) (day _) (day _) same
  obtain ⟨same, month_eq⟩ := append_padded_inj (by decide) (month _) (month _) same
  have day_same : t.seconds / 86400 = u.seconds / 86400 := by
    refine Date.ofDay_injective ?_
    have year_eq := yearText_injective same
    generalize Date.ofDay (t.seconds / 86400) = date at year_eq month_eq day_eq
    cases date
    subst year_eq month_eq day_eq
    rfl
  unfold Regular at regular regular'
  have seconds_eq : t.seconds = u.seconds := by omega
  have nanoseconds_eq : t.nanoseconds - t.nanoseconds % 1000000 =
      u.nanoseconds - u.nanoseconds % 1000000 := by omega
  unfold canonical
  simp only [seconds_eq, nanoseconds_eq]

theorem text_eq_iff : t.text = u.text ↔ t.carried = u.carried := by
  refine ⟨fun same => ?_, fun same => ?_⟩
  · have carried_eq := canonical_eq_of_text_eq t.regular_carried u.regular_carried
      (by rw [text_carried, same, text_carried])
    rwa [canonical_carried, canonical_carried] at carried_eq
  · rw [← t.text_carried, same, u.text_carried]

end Instant

namespace Sample

/-- A leap second after 2024-06-01T10:00:10Z, which no minute ends with. -/
def strayLeap : Instant := ⟨1717236010, 1500000000, by decide⟩

def afterLeap : Instant := ⟨1717236011, 500000000, by decide⟩

def justAfter : Instant := ⟨1717236011, 200000000, by decide⟩

example : strayLeap.text = afterLeap.text := by
  rw [Instant.text_eq_iff]
  decide

end Sample

end Parley
