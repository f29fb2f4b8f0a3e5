import Mathlib.Algebra.Order.BigOperators.Group.List
import Mathlib.Data.String.Basic
import Parley.Proofs.Timestamp

namespace Parley

namespace Date

variable {d e : Date} {year year' day day' : Int}

def Before (d e : Date) : Prop :=
  d.year < e.year ∨
    (d.year = e.year ∧ (d.month < e.month ∨ (d.month = e.month ∧ d.day < e.day)))

theorem dayOfYear_le (valid : d.isValid = true) :
    d.dayOfYear ≤ ((monthLengths d.year).take d.month).sum := by
  obtain ⟨first, -, length, found, last⟩ := isValid_iff.1 valid
  obtain ⟨inside, rfl⟩ := List.getElem?_eq_some_iff.1 found
  have through := List.sum_take_succ (monthLengths d.year) (d.month - 1) inside
  rw [Nat.sub_add_cancel first] at through
  unfold dayOfYear
  omega

theorem dayOfYear_lt_of_month (valid : d.isValid = true) (valid' : e.isValid = true)
    (same : d.year = e.year) (earlier : d.month < e.month) : d.dayOfYear < e.dayOfYear := by
  have before := dayOfYear_le valid
  have mono : ((monthLengths d.year).take d.month).sum ≤
      ((monthLengths d.year).take (e.month - 1)).sum :=
    List.monotone_sum_take _ (Nat.le_sub_one_of_lt earlier)
  have first := (isValid_iff.1 valid').2.1
  rw [same] at before mono
  unfold dayOfYear at before ⊢
  omega

theorem daysBeforeYear_mono (le : year ≤ year') : daysBeforeYear year ≤ daysBeforeYear year' := by
  unfold daysBeforeYear
  dsimp only
  omega

theorem toDay_lt_of_before (valid : d.isValid = true) (valid' : e.isValid = true)
    (before : d.Before e) : d.toDay < e.toDay := by
  rw [toDay_eq, toDay_eq]
  rcases before with year_lt | ⟨year_eq, month_lt | ⟨month_eq, day_lt⟩⟩
  · -- the earlier year is over before the later one starts
    have inside := dayOfYear_le valid
    have whole : ((monthLengths d.year).take d.month).sum ≤ (monthLengths d.year).sum :=
      (List.take_sublist _ _).sum_le_sum fun _ _ => Nat.zero_le _
    have next := daysBeforeYear_succ d.year
    have mono := daysBeforeYear_mono (Int.add_one_le_of_lt year_lt)
    have first := (isValid_iff.1 valid').2.1
    have first' : 1 ≤ e.dayOfYear := by
      unfold dayOfYear
      omega
    omega
  · have earlier := dayOfYear_lt_of_month valid valid' year_eq month_lt
    rw [year_eq]
    omega
  · have earlier : d.dayOfYear < e.dayOfYear := by
      unfold dayOfYear
      rw [year_eq, month_eq]
      omega
    rw [year_eq]
    omega

theorem before_total (d e : Date) : d.Before e ∨ d = e ∨ e.Before d := by
  obtain ⟨year, month, day⟩ := d
  obtain ⟨year', month', day'⟩ := e
  simp only [Before, mk.injEq]
  omega

theorem before_ofDay_iff : (ofDay day).Before (ofDay day') ↔ day < day' := by
  have valid := isValid_ofDay
  constructor
  · intro before
    have := toDay_lt_of_before (valid day) (valid day') before
    rwa [toDay_ofDay, toDay_ofDay] at this
  · intro lt
    obtain before | same | after := before_total (ofDay day) (ofDay day')
    · exact before
    · have := ofDay_injective same
      omega
    · have := toDay_lt_of_before (valid day') (valid day) after
      rw [toDay_ofDay, toDay_ofDay] at this
      omega

end Date

namespace Instant

variable {t u : Instant} {width n m : Nat} {ds es r s : List Char} {c : Char}

theorem append_lt_append_iff (same : ds.length = es.length) :
    ds ++ r < es ++ s ↔ ds < es ∨ (ds = es ∧ r < s) := by
  induction ds generalizing es with
  | nil =>
    obtain rfl := List.length_eq_zero_iff.1 same.symm
    simp
  | cons d ds ih =>
    cases es with
    | nil => cases same
    | cons e es =>
      rw [List.cons_append, List.cons_append, List.cons_lt_cons_iff, List.cons_lt_cons_iff,
        ih (Nat.succ.inj same), List.cons.injEq]
      tauto

theorem ofDigitChars_cons (d : Char) (ds : List Char) : Nat.ofDigitChars 10 (d :: ds) 0 =
    10 ^ ds.length * (d.toNat - 48) + Nat.ofDigitChars 10 ds 0 := by
  rw [Nat.ofDigitChars_cons, Nat.ofDigitChars_eq_ofDigitChars_zero, Nat.mul_zero, Nat.zero_add]
  rfl

theorem toNat_of_isDigit (digit : c.isDigit = true) : 48 ≤ c.toNat ∧ c.toNat ≤ 57 :=
  Char.isDigit_iff_toNat.1 digit

theorem ofDigitChars_lt (digits : ∀ c ∈ ds, c.isDigit = true) :
    Nat.ofDigitChars 10 ds 0 < 10 ^ ds.length := by
  induction ds with
  | nil => decide
  | cons d ds ih =>
    obtain ⟨digit, others⟩ := List.forall_mem_cons.1 digits
    have value := (toNat_of_isDigit digit).2
    have low := ih others
    have high : 10 ^ ds.length * (d.toNat - 48) ≤ 10 ^ ds.length * 9 :=
      Nat.mul_le_mul_left _ (Nat.sub_le_of_le_add value)
    rw [ofDigitChars_cons, List.length_cons, Nat.pow_succ]
    omega

theorem mul_add_lt_iff {b x y v w : Nat} (v_lt : v < b) (w_lt : w < b) :
    b * x + v < b * y + w ↔ x < y ∨ (x = y ∧ v < w) := by
  have ordered : ∀ {x y v w : Nat}, v < b → x < y → b * x + v < b * y + w := by
    intro x y v w v_lt lt
    have := Nat.mul_le_mul_left b lt
    rw [Nat.mul_succ] at this
    omega
  obtain lt | rfl | gt := Nat.lt_trichotomy x y
  · simp [lt, ordered v_lt lt]
  · simp
  · have := ordered (w := v) w_lt gt
    omega

theorem digits_lt_iff (digits : ∀ c ∈ ds, c.isDigit = true) (digits' : ∀ c ∈ es, c.isDigit = true)
    (same : ds.length = es.length) :
    ds < es ↔ Nat.ofDigitChars 10 ds 0 < Nat.ofDigitChars 10 es 0 := by
  induction ds generalizing es with
  | nil =>
    obtain rfl := List.length_eq_zero_iff.1 same.symm
    simp
  | cons d ds ih =>
    cases es with
    | nil => cases same
    | cons e es =>
      obtain ⟨digit, others⟩ := List.forall_mem_cons.1 digits
      obtain ⟨digit', others'⟩ := List.forall_mem_cons.1 digits'
      replace same := Nat.succ.inj same
      have low := ofDigitChars_lt others
      rw [same] at low
      have value := toNat_of_isDigit digit
      have value' := toNat_of_isDigit digit'
      have first_lt : d < e ↔ d.toNat - 48 < e.toNat - 48 := by
        change d.toNat < e.toNat ↔ _
        omega
      have first_eq : d = e ↔ d.toNat - 48 = e.toNat - 48 := by
        rw [← Char.toNat_inj]
        omega
      rw [List.cons_lt_cons_iff, ofDigitChars_cons, ofDigitChars_cons, same,
        mul_add_lt_iff low (ofDigitChars_lt others'), first_lt, first_eq, ih others others' same]

theorem field_lt_iff (positive : 0 < width) (short : n < 10 ^ width) (short' : m < 10 ^ width) :
    padded width n ++ c :: r < padded width m ++ c :: s ↔ n < m ∨ (n = m ∧ r < s) := by
  have same : (padded width n).length = (padded width m).length := by
    rw [length_padded positive short, length_padded positive short']
  rw [append_lt_append_iff same, digits_lt_iff (fun _ => isDigit_of_mem_padded)
    (fun _ => isDigit_of_mem_padded) same, ofDigitChars_padded, ofDigitChars_padded,
    List.cons_lt_cons_iff]
  have eq_iff : padded width n = padded width m ↔ n = m :=
    ⟨padded_injective, fun same => same ▸ rfl⟩
  simp [eq_iff]

theorem lt_iff : t < u ↔
    t.seconds < u.seconds ∨ (t.seconds = u.seconds ∧ t.nanoseconds < u.nanoseconds) :=
  Iff.rfl

theorem canonical_le (t : Instant) : t.canonical ≤ t := by
  rintro (lt | ⟨-, lt⟩)
  · exact Int.lt_irrefl _ lt
  · change t.nanoseconds < t.nanoseconds - t.nanoseconds % 1000000 at lt
    omega

theorem canonical_mono (le : t ≤ u) : t.canonical ≤ u.canonical := by
  intro lt
  refine le ?_
  rw [lt_iff] at lt ⊢
  change u.seconds < t.seconds ∨ (u.seconds = t.seconds ∧
    u.nanoseconds - u.nanoseconds % 1000000 < t.nanoseconds - t.nanoseconds % 1000000) at lt
  omega

theorem since_canonical (t : Instant) :
    t.since t.canonical = ⟨(t.nanoseconds % 1000000 : Nat)⟩ := by
  have same : t.canonical.secondOfDay = t.secondOfDay := rfl
  unfold since
  rw [same, if_neg (by omega), if_neg (by omega)]
  unfold canonical
  simp only [Span.mk.injEq]
  omega

theorem second_millisecond (t : Instant) : t.second * 1000 + t.millisecond =
    t.secondOfDay.toNat % 60 * 1000 + t.nanoseconds / 1000000 := by
  unfold second millisecond
  omega

theorem hour_minute (t : Instant) : t.hour * 60 + t.minute = t.secondOfDay.toNat / 60 := by
  unfold hour minute
  omega

theorem canonical_lt_iff_of_day (regular : t.Regular) (regular' : u.Regular)
    (same : t.seconds / 86400 = u.seconds / 86400) :
    t.canonical < u.canonical ↔ t.hour * 60 + t.minute < u.hour * 60 + u.minute ∨
      (t.hour * 60 + t.minute = u.hour * 60 + u.minute ∧
        t.second * 1000 + t.millisecond < u.second * 1000 + u.millisecond) := by
  have t_lt := t.nanoseconds_lt
  have u_lt := u.nanoseconds_lt
  unfold Regular at regular regular'
  rw [hour_minute, hour_minute, second_millisecond, second_millisecond, lt_iff]
  unfold secondOfDay canonical
  dsimp only
  omega

theorem text_lt_iff_fields (dated : t.Dated) (dated' : u.Dated) : t.text < u.text ↔
    t.date.year.toNat < u.date.year.toNat ∨ (t.date.year.toNat = u.date.year.toNat ∧
      (t.date.month < u.date.month ∨ (t.date.month = u.date.month ∧
        (t.date.day < u.date.day ∨ (t.date.day = u.date.day ∧
          (t.hour < u.hour ∨ (t.hour = u.hour ∧
            (t.minute < u.minute ∨ (t.minute = u.minute ∧
              (t.second < u.second ∨ (t.second = u.second ∧
                t.millisecond < u.millisecond))))))))))) := by
  have fields : t.text < u.text ↔ t.format < u.format := by
    rw [text, text, String.lt_iff_toList_lt, String.toList_ofList, String.toList_ofList]
  rw [fields, dated.format_eq, dated'.format_eq,
    field_lt_iff (by decide) dated.year_short dated'.year_short,
    field_lt_iff (by decide) t.month_short u.month_short,
    field_lt_iff (by decide) t.day_short u.day_short,
    field_lt_iff (by decide) t.hour_short u.hour_short,
    field_lt_iff (by decide) t.minute_short u.minute_short,
    field_lt_iff (by decide) t.second_short u.second_short,
    field_lt_iff (by decide) t.millisecond_lt u.millisecond_lt]
  simp only [List.lt_irrefl, and_false, or_false]

theorem Regular.text_lt_iff (regular : t.Regular) (regular' : u.Regular) (dated : t.Dated)
    (dated' : u.Dated) : t.text < u.text ↔ t.canonical < u.canonical := by
  have start : 0 ≤ t.date.year := dated.1
  have start' : 0 ≤ u.date.year := dated'.1
  have before : t.date.Before u.date ↔ t.seconds / 86400 < u.seconds / 86400 :=
    Date.before_ofDay_iff
  have after : u.date.Before t.date ↔ u.seconds / 86400 < t.seconds / 86400 :=
    Date.before_ofDay_iff
  rw [text_lt_iff_fields dated dated']
  unfold Date.Before at before after
  obtain earlier | day_eq | later := Int.lt_trichotomy (t.seconds / 86400) (u.seconds / 86400)
  · have first : t.canonical < u.canonical := .inl (show t.seconds < u.seconds by omega)
    refine iff_of_true ?_ first
    have := before.2 earlier
    omega
  · have same : t.date = u.date := congrArg Date.ofDay day_eq
    have minute_lt := t.minute_lt
    have minute_lt' := u.minute_lt
    have millisecond_lt := t.millisecond_lt
    have millisecond_lt' := u.millisecond_lt
    rw [same, canonical_lt_iff_of_day regular regular' day_eq]
    omega
  · have last : ¬ t.canonical < u.canonical := by
      rintro (lt | ⟨eq, -⟩)
      · change t.seconds < u.seconds at lt
        omega
      · change t.seconds = u.seconds at eq
        omega
    refine iff_of_false ?_ last
    have := after.2 later
    omega

theorem text_lt_iff (dated : t.Dated) (dated' : u.Dated) :
    t.text < u.text ↔ t.carried < u.carried := by
  rw [← t.text_carried, ← u.text_carried, t.regular_carried.text_lt_iff u.regular_carried
    (dated_carried.2 dated) (dated_carried.2 dated'), canonical_carried, canonical_carried]

def Fits (p c : Char) : Prop :=
  if p ∈ ['Y', 'M', 'D', 'H', 'S', 'm'] then c.isDigit = true else c = p

instance (p c : Char) : Decidable (Fits p c) :=
  inferInstanceAs (Decidable (ite _ _ _))

def Shaped (pattern s : String) : Prop :=
  List.Forall₂ Fits pattern.toList s.toList

instance (pattern s : String) : Decidable (Shaped pattern s) :=
  inferInstanceAs (Decidable (List.Forall₂ _ _ _))

theorem fits_digits {p : Char} (letter : p ∈ ['Y', 'M', 'D', 'H', 'S', 'm'])
    (digits : ∀ c ∈ ds, c.isDigit = true) :
    List.Forall₂ Fits (List.replicate ds.length p) ds := by
  induction ds with
  | nil => exact .nil
  | cons d ds ih =>
    obtain ⟨digit, others⟩ := List.forall_mem_cons.1 digits
    exact .cons ((if_pos letter).mpr digit) (ih others)

theorem fits_field {p q : Char} (letter : p ∈ ['Y', 'M', 'D', 'H', 'S', 'm'])
    (other : q ∉ ['Y', 'M', 'D', 'H', 'S', 'm']) (positive : 0 < width) (short : n < 10 ^ width)
    (rest : List.Forall₂ Fits r s) :
    List.Forall₂ Fits (List.replicate width p ++ q :: r) (padded width n ++ q :: s) := by
  have digits : ∀ c ∈ padded width n, c.isDigit = true := fun _ => isDigit_of_mem_padded
  replace digits := fits_digits letter digits
  rw [length_padded positive short] at digits
  exact List.rel_append digits (.cons ((if_neg other).mpr rfl) rest)

theorem Dated.shaped (dated : t.Dated) : Shaped "YYYY-MM-DDTHH:MM:SS.mmmZ" t.text := by
  have pattern : "YYYY-MM-DDTHH:MM:SS.mmmZ".toList =
      List.replicate 4 'Y' ++ '-' :: (List.replicate 2 'M' ++ '-' :: (List.replicate 2 'D' ++ 'T' ::
        (List.replicate 2 'H' ++ ':' :: (List.replicate 2 'M' ++ ':' ::
          (List.replicate 2 'S' ++ '.' :: (List.replicate 3 'm' ++ ['Z'])))))) := by
    decide
  rw [Shaped, pattern, text, String.toList_ofList, dated.format_eq]
  refine fits_field (by decide) (by decide) (by decide) dated.year_short ?_
  refine fits_field (by decide) (by decide) (by decide) t.month_short ?_
  refine fits_field (by decide) (by decide) (by decide) t.day_short ?_
  refine fits_field (by decide) (by decide) (by decide) t.hour_short ?_
  refine fits_field (by decide) (by decide) (by decide) t.minute_short ?_
  refine fits_field (by decide) (by decide) (by decide) t.second_short ?_
  exact fits_field (by decide) (by decide) (by decide) t.millisecond_lt .nil

example : ¬ Shaped "HH:MM" "9:30" := by
  decide

/-- At the precision of messages, an instant is cut down once and for all, by less than a
millisecond, and instants keep their order. What is written of one depends on what is left of it, has
a fixed shape, sorts as what is left does in time, and is read as what is left, except that a leap second
that does not end its minute counts as the second after it. -/
theorem precision_kept (t_dated : t.Dated) (u_dated : u.Dated) :
    t.canonical.canonical = t.canonical ∧ (t ≤ u → t.canonical ≤ u.canonical) ∧
    t.canonical ≤ t ∧ 0 ≤ (t.since t.canonical).nanoseconds ∧
    (t.since t.canonical).nanoseconds < (Span.ofMilliseconds 1).nanoseconds ∧
    t.canonical.text = t.text ∧ Shaped "YYYY-MM-DDTHH:MM:SS.mmmZ" t.text ∧
    (t.text = u.text ↔ t.carried = u.carried) ∧ (t.text < u.text ↔ t.carried < u.carried) ∧
    decode (.text t.text) = .ok t.carried ∧ (t.Regular → t.carried = t.canonical) := by
  have cut := congrArg Span.nanoseconds t.since_canonical
  have short : (Span.ofMilliseconds 1).nanoseconds = 1000000 := rfl
  refine ⟨t.canonical_canonical, canonical_mono, t.canonical_le, ?_, ?_, t.text_canonical,
    t_dated.shaped, text_eq_iff, text_lt_iff t_dated u_dated, ?_, Regular.carried_eq⟩
  · dsimp only at cut
    omega
  · dsimp only at cut
    omega
  · rw [decode_text, if_pos t_dated]

end Instant

namespace Sample

def yearsLast : Instant := ⟨-1, 1999999999, by decide⟩

def yearsFirst : Instant := ⟨0, 999999, by decide⟩

theorem precision_leapSecond :
    yearsLast.Dated ∧ yearsFirst.Dated ∧ yearsLast.Regular ∧
    yearsLast.canonical ≤ yearsFirst.canonical ∧
    yearsLast.text < yearsFirst.text ∧ yearsLast.text ≠ yearsFirst.text ∧
    Instant.Shaped "YYYY-MM-DDTHH:MM:SS.mmmZ" yearsLast.text ∧
    Instant.decode (.text yearsLast.text) = .ok yearsLast.canonical := by
  have last : yearsLast.Dated := by decide
  have first : yearsFirst.Dated := by decide
  have regular : yearsLast.Regular := by decide
  obtain ⟨-, mono, -, -, -, -, shaped, same, order, read, kept⟩ := Instant.precision_kept last first
  have ordered : yearsLast ≤ yearsFirst := by decide
  have apart : yearsLast.carried ≠ yearsFirst.carried := by decide
  rw [kept regular] at read
  exact ⟨last, first, regular, mono ordered, order.2 (by decide), fun texts => apart (same.1 texts),
    shaped, read⟩

theorem strayLeap_order :
    strayLeap.Dated ∧ afterLeap.Dated ∧ strayLeap.canonical < afterLeap.canonical ∧
    ¬ strayLeap.text < afterLeap.text ∧
    Instant.decode (.text strayLeap.text) = .ok afterLeap ∧ afterLeap ≠ strayLeap.canonical := by
  have stray : strayLeap.Dated := by decide
  have after : afterLeap.Dated := by decide
  have read : Instant.decode (.text strayLeap.text) = .ok afterLeap := by
    rw [Instant.decode_text, if_pos stray]
    exact congrArg Except.ok (by decide)
  refine ⟨stray, after, by decide, ?_, read, by decide⟩
  rw [Instant.text_lt_iff stray after]
  decide

end Sample

end Parley
