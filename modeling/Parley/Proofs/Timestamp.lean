import Parley.Proofs.Json
import Parley.Proofs.Time

namespace Parley

namespace Date

variable {d : Nat}

theorem monthOf_inside (month : Nat) {lengths : List Nat} (inside : d < lengths.sum) :
    ∃ length, lengths[(monthOf month lengths d).1 - month]? = some length ∧
      (monthOf month lengths d).2 ≤ length := by
  induction lengths generalizing month d with
  | nil => cases inside
  | cons length rest ih =>
    rw [List.sum_cons] at inside
    unfold monthOf
    split
    next here => exact ⟨length, by simp, here⟩
    next past =>
      obtain ⟨last, found, short⟩ := ih (d := d - length) (month + 1) (by omega)
      obtain ⟨later, -, -⟩ := sum_monthOf (month + 1) (d - length) rest
      generalize monthOf (month + 1) rest (d - length) = place at found short later
      have gone : place.1 - month = place.1 - (month + 1) + 1 := by omega
      rw [gone, List.getElem?_cons_succ]
      exact ⟨last, found, short⟩

theorem daysBeforeYear_succ (year : Int) :
    daysBeforeYear (year + 1) = daysBeforeYear year + (monthLengths year).sum := by
  have sum_eq : (monthLengths year).sum = if isLeap year then 366 else 365 := by
    unfold monthLengths
    split <;> simp
  rw [sum_eq]
  simp only [daysBeforeYear, isLeap, Bool.and_eq_true, Bool.or_eq_true, beq_iff_eq, bne_iff_ne]
  split <;> omega

theorem isValid_iff {date : Date} : date.isValid = true ↔ 1 ≤ date.month ∧ 1 ≤ date.day ∧
    ∃ length, (monthLengths date.year)[date.month - 1]? = some length ∧ date.day ≤ length := by
  unfold isValid
  cases (monthLengths date.year)[date.month - 1]? with
  | none => simp
  | some length => simp [and_assoc]

theorem isValid_ofDay (day : Int) : (ofDay day).isValid = true := by
  obtain ⟨start, stop⟩ := yearOf_bounds (day + epoch)
  rw [daysBeforeYear_succ] at stop
  have inside : (day + epoch - daysBeforeYear (yearOf (day + epoch))).toNat <
      (monthLengths (yearOf (day + epoch))).sum := by
    omega
  obtain ⟨length, found, last⟩ := monthOf_inside 1 inside
  obtain ⟨month, first, -⟩ := sum_monthOf 1
    (day + epoch - daysBeforeYear (yearOf (day + epoch))).toNat (monthLengths (yearOf (day + epoch)))
  exact isValid_iff.2 ⟨month, first, length, found, last⟩

end Date

namespace Instant

variable {t : Instant} {ds r : List Char} {n width : Nat}

theorem digit?_of_isDigit {c : Char} (digit : c.isDigit = true) : digit? c = some (c.toNat - 48) := by
  rw [digit?, if_pos digit]

theorem number?_digits (n : Nat) (digits : ∀ c ∈ ds, c.isDigit = true) (r : List Char) :
    number? ds.length n (ds ++ r) = some (Nat.ofDigitChars 10 ds n, r) := by
  induction ds generalizing n with
  | nil => rfl
  | cons d ds ih =>
    obtain ⟨digit, others⟩ := List.forall_mem_cons.1 digits
    rw [List.length_cons, List.cons_append, number?, digit?_of_isDigit digit, Nat.ofDigitChars_cons,
      Nat.mul_comm]
    exact ih _ others

theorem number?_padded (positive : 0 < width) (short : n < 10 ^ width) (r : List Char) :
    number? width 0 (padded width n ++ r) = some (n, r) := by
  have digits : ∀ c ∈ padded width n, c.isDigit = true := fun _ mem => isDigit_of_mem_padded mem
  have read := number?_digits 0 digits r
  rwa [length_padded positive short, ofDigitChars_padded] at read

theorem fraction?_padded (short : n < 1000) (stops : Json.Stops r) :
    fraction? (padded 3 n ++ r) = some (n * 1000000, r) := by
  have digits : ∀ c ∈ padded 3 n, c.isDigit = true := fun _ mem => isDigit_of_mem_padded mem
  have length_eq : (padded 3 n).length = 3 := length_padded (by decide) short
  have some_digits : (padded 3 n).isEmpty = false := by
    rw [List.isEmpty_eq_false_iff, ← List.length_pos_iff, length_eq]
    decide
  have value : ((padded 3 n).map fun c => c.toNat - 48).foldl (fun n d => n * 10 + d) 0 = n := by
    have read := ofDigitChars_padded 3 n
    unfold Nat.ofDigitChars at read
    rw [List.foldl_map]
    simp only [Nat.mul_comm 10] at read
    exact read
  unfold fraction?
  rw [(Json.span_digits digits stops).1, (Json.span_digits digits stops).2]
  dsimp only
  rw [some_digits, List.take_of_length_le (by omega), List.length_map, length_eq, value]
  rfl

theorem expect_cons (c : Char) (cs : List Char) : expect c (c :: cs) = some cs :=
  if_pos rfl

theorem Regular.of?_numbers (regular : t.Regular) : of? t.seconds t.nanoseconds = some t :=
  dif_pos ⟨t.nanoseconds_lt, regular⟩

/-- That the year of an instant has at most four digits and no sign. -/
def Dated (t : Instant) : Prop :=
  0 ≤ (Date.ofDay (t.seconds / 86400)).year ∧ (Date.ofDay (t.seconds / 86400)).year ≤ 9999

instance : DecidablePred Dated := fun _ => inferInstanceAs (Decidable (_ ∧ _))

theorem dated_iff : t.Dated ↔ -62167219200 ≤ t.seconds ∧ t.seconds ≤ 253402300799 := by
  obtain ⟨start, stop⟩ := Date.yearOf_bounds (t.seconds / 86400 + Date.epoch)
  have year_eq : (Date.ofDay (t.seconds / 86400)).year =
      Date.yearOf (t.seconds / 86400 + Date.epoch) := rfl
  unfold Dated
  rw [year_eq]
  generalize Date.yearOf (t.seconds / 86400 + Date.epoch) = year at start stop
  unfold Date.daysBeforeYear Date.epoch at start stop
  dsimp only at start stop
  omega

@[simp] theorem dated_carried : t.carried.Dated ↔ t.Dated := by
  unfold carried
  split
  next => exact Iff.rfl
  next irregular =>
    obtain ⟨-, inside⟩ := Classical.not_imp.1 irregular
    have day : (t.seconds + 1) / 86400 = t.seconds / 86400 := by omega
    unfold Dated canonical
    dsimp only
    rw [day]

theorem read?_fields {date time month_day day_only minutes seconds fraction : List Char}
    {year month day hour minute second nanoseconds : Nat}
    (year_read : number? 4 0 date = some (year, '-' :: month_day))
    (month_read : number? 2 0 month_day = some (month, '-' :: day_only))
    (day_read : number? 2 0 day_only = some (day, 'T' :: time))
    (hour_read : number? 2 0 time = some (hour, ':' :: minutes))
    (minute_read : number? 2 0 minutes = some (minute, ':' :: seconds))
    (second_read : number? 2 0 seconds = some (second, '.' :: fraction))
    (fraction_read : fraction? fraction = some (nanoseconds, ['Z'])) :
    read? date =
      if (Date.mk year month day).isValid ∧ hour ≤ 23 ∧ minute ≤ 59 ∧ second ≤ 60 then
        of? ((Date.mk year month day).toDay * 86400 +
            ((hour * 60 + minute) * 60 + (second - second / 60) : Nat))
          (nanoseconds + second / 60 * 1000000000)
      else none := by
  unfold read?
  rw [year_read, Option.bind_eq_bind, Option.bind_some]
  dsimp only
  rw [expect_cons, Option.bind_eq_bind, Option.bind_some, month_read, Option.bind_eq_bind,
    Option.bind_some]
  dsimp only
  rw [expect_cons, Option.bind_some, day_read, Option.bind_some]
  dsimp only
  rw [if_pos (.inl rfl), Option.bind_some, hour_read, Option.bind_some]
  dsimp only
  rw [expect_cons, Option.bind_some, minute_read, Option.bind_some]
  dsimp only
  rw [expect_cons, Option.bind_some, second_read, Option.bind_some]
  simp [fraction_read, offset?]

def date (t : Instant) : Date := .ofDay (t.seconds / 86400)

def hour (t : Instant) : Nat := t.secondOfDay.toNat / 3600

def minute (t : Instant) : Nat := t.secondOfDay.toNat / 60 % 60

def second (t : Instant) : Nat := t.secondOfDay.toNat % 60 + t.nanoseconds / 1000000000

def millisecond (t : Instant) : Nat := t.nanoseconds % 1000000000 / 1000000

theorem hour_lt (t : Instant) : t.hour < 24 := by
  unfold hour secondOfDay
  omega

theorem minute_lt (t : Instant) : t.minute < 60 := by
  unfold minute
  omega

theorem second_le (t : Instant) : t.second ≤ 60 := by
  have := t.nanoseconds_lt
  unfold second
  omega

theorem millisecond_lt (t : Instant) : t.millisecond < 1000 := by
  unfold millisecond
  omega

theorem Dated.year_short (dated : t.Dated) : t.date.year.toNat < 10 ^ 4 := by
  have : t.date.year ≤ 9999 := dated.2
  omega

theorem month_short (t : Instant) : t.date.month < 10 ^ 2 :=
  Date.month_ofDay_lt (t.seconds / 86400)

theorem day_short (t : Instant) : t.date.day < 10 ^ 2 :=
  Date.day_ofDay_lt (t.seconds / 86400)

theorem hour_short (t : Instant) : t.hour < 10 ^ 2 :=
  t.hour_lt.trans (by decide)

theorem minute_short (t : Instant) : t.minute < 10 ^ 2 :=
  t.minute_lt.trans (by decide)

theorem second_short (t : Instant) : t.second < 10 ^ 2 :=
  Nat.lt_of_le_of_lt t.second_le (by decide)

theorem Dated.format_eq (dated : t.Dated) : t.format =
    padded 4 t.date.year.toNat ++ '-' :: (padded 2 t.date.month ++ '-' ::
      (padded 2 t.date.day ++ 'T' :: (padded 2 t.hour ++ ':' :: (padded 2 t.minute ++ ':' ::
        (padded 2 t.second ++ '.' :: (padded 3 t.millisecond ++ ['Z'])))))) := by
  have written : yearText t.date.year = padded 4 t.date.year.toNat := if_pos dated
  change yearText t.date.year ++ '-' :: padded 2 t.date.month ++ '-' :: padded 2 t.date.day ++
    'T' :: padded 2 t.hour ++ ':' :: padded 2 t.minute ++ ':' :: padded 2 t.second ++
    '.' :: padded 3 t.millisecond ++ ['Z'] = _
  simp only [written, List.append_assoc, List.cons_append]

theorem Regular.read?_format (regular : t.Regular) (dated : t.Dated) :
    read? t.format = some t.canonical := by
  have hour_lt := t.hour_lt
  have minute_lt := t.minute_lt
  have second_le := t.second_le
  rw [dated.format_eq, read?_fields (number?_padded (by decide) dated.year_short _)
    (number?_padded (by decide) t.month_short _) (number?_padded (by decide) t.day_short _)
    (number?_padded (by decide) t.hour_short _) (number?_padded (by decide) t.minute_short _)
    (number?_padded (by decide) t.second_short _)
    (fraction?_padded t.millisecond_lt (Json.stops_cons (by decide)))]
  have year_eq : ((t.date.year.toNat : Nat) : Int) = t.date.year := Int.toNat_of_nonneg dated.1
  have valid : t.date.isValid = true := Date.isValid_ofDay (t.seconds / 86400)
  have same : t.date.toDay = t.seconds / 86400 := Date.toDay_ofDay (t.seconds / 86400)
  rw [year_eq, if_pos ⟨valid, by omega, by omega, second_le⟩, same]
  have leap : 1000000000 ≤ t.nanoseconds → t.seconds % 60 = 59 := regular
  have nanoseconds_lt := t.nanoseconds_lt
  have seconds_eq : t.canonical.seconds = t.seconds / 86400 * 86400 +
      ((t.hour * 60 + t.minute) * 60 + (t.second - t.second / 60) : Nat) := by
    rw [canonical_seconds]
    unfold hour minute second secondOfDay
    omega
  have nanoseconds_eq : t.canonical.nanoseconds =
      t.millisecond * 1000000 + t.second / 60 * 1000000000 := by
    unfold canonical millisecond second secondOfDay
    dsimp only
    omega
  rw [← (regular_canonical.2 regular).of?_numbers, seconds_eq, nanoseconds_eq]

/-- What was written of an instant is read back as it was carried. -/
theorem read?_format (dated : t.Dated) : read? t.format = some t.carried := by
  have same : t.carried.format = t.format := String.ofList_injective t.text_carried
  rw [← same, t.regular_carried.read?_format (dated_carried.2 dated), canonical_carried]

theorem regular_of_read? {cs : List Char} (read : read? cs = some t) : t.Regular := by
  unfold read? at read
  obtain ⟨⟨year, cs⟩, -, read⟩ := Option.bind_eq_some_iff.1 read
  obtain ⟨cs, -, read⟩ := Option.bind_eq_some_iff.1 read
  obtain ⟨⟨month, cs⟩, -, read⟩ := Option.bind_eq_some_iff.1 read
  obtain ⟨cs, -, read⟩ := Option.bind_eq_some_iff.1 read
  obtain ⟨⟨day, cs⟩, -, read⟩ := Option.bind_eq_some_iff.1 read
  dsimp only at read
  split at read
  · cases read
  split at read
  case isFalse => cases read
  obtain ⟨cs, -, read⟩ := Option.bind_eq_some_iff.1 read
  obtain ⟨⟨hour, cs⟩, -, read⟩ := Option.bind_eq_some_iff.1 read
  obtain ⟨cs, -, read⟩ := Option.bind_eq_some_iff.1 read
  obtain ⟨⟨minute, cs⟩, -, read⟩ := Option.bind_eq_some_iff.1 read
  obtain ⟨cs, -, read⟩ := Option.bind_eq_some_iff.1 read
  obtain ⟨⟨second, cs⟩, -, read⟩ := Option.bind_eq_some_iff.1 read
  dsimp only at read
  split at read
  all_goals
    obtain ⟨⟨nanoseconds, cs⟩, -, read⟩ := Option.bind_eq_some_iff.1 read
    obtain ⟨⟨offset, cs⟩, -, read⟩ := Option.bind_eq_some_iff.1 read
    dsimp only at read
    split at read
    · exact regular_of_of? read
    · cases read

theorem read?_sign {sign : Char} (other : sign.isDigit = false) (r : List Char) :
    read? (sign :: r) = none := by
  have fails : number? 4 0 (sign :: r) = none := by
    simp [number?, digit?, other]
  rw [read?, fails]
  rfl

theorem yearText_signed {year : Int} (outside : ¬ (0 ≤ year ∧ year ≤ 9999)) :
    ∃ sign rest, yearText year = sign :: rest ∧ sign.isDigit = false := by
  unfold yearText
  rw [if_neg outside]
  split
  · exact ⟨'+', _, rfl, rfl⟩
  · exact ⟨'-', _, rfl, rfl⟩

theorem read?_format_of_not_dated (undated : ¬ t.Dated) : read? t.format = none := by
  obtain ⟨sign, rest, written, other⟩ := yearText_signed undated
  unfold format
  dsimp only
  rw [written]
  exact read?_sign other _

theorem decode_of_text (s : String) :
    decode (.text s) = match ofText? s with
      | some t => .ok t.canonical
      | none => .error .malformed :=
  rfl

theorem decode_text (t : Instant) :
    decode (.text t.text) = if t.Dated then .ok t.carried else .error .malformed := by
  rw [decode_of_text, ofText?, text, String.toList_ofList]
  split_ifs with dated
  · rw [read?_format dated]
    dsimp only
    rw [canonical_carried]
  · rw [read?_format_of_not_dated dated]

end Instant

end Parley
