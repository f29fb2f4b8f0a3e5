import Parley.Proofs.Config
import Parley.Proofs.Party
import Parley.Proofs.Timestamp

namespace Parley

namespace Instant

variable {t u : Instant} {n : Int}

theorem not_lt : ¬ t < u ↔ u ≤ t := Iff.rfl

theorem not_le : ¬ t ≤ u ↔ u < t := not_not

def InCalendar (t : Instant) : Prop :=
  firstSecond ≤ t.seconds ∧ t.seconds ≤ lastSecond

instance : DecidablePred InCalendar := fun _ => inferInstanceAs (Decidable (_ ∧ _))

def shift (t : Instant) (n : Int) : Instant where
  seconds := if t.nanoseconds < 1000000000 ∨ 0 ≤ n then t.seconds + n else t.seconds + 1 + n
  nanoseconds := if n = 0 then t.nanoseconds else t.nanoseconds % 1000000000
  nanoseconds_lt := by
    have := t.nanoseconds_lt
    split <;> omega

theorem place?_shift {seconds nanoseconds : Int}
    (seconds_eq : seconds = if t.nanoseconds < 1000000000 ∨ 0 ≤ n then t.seconds + n
      else t.seconds + 1 + n)
    (nanoseconds_eq : nanoseconds = (if n = 0 then t.nanoseconds
      else t.nanoseconds % 1000000000 : Nat)) :
    place? seconds nanoseconds = if (t.shift n).InCalendar then some (t.shift n) else none := by
  change seconds = (t.shift n).seconds at seconds_eq
  change nanoseconds = (t.shift n).nanoseconds at nanoseconds_eq
  have short : nanoseconds.toNat < 2000000000 := by
    rw [nanoseconds_eq, Int.toNat_natCast]
    exact (t.shift n).nanoseconds_lt
  subst seconds_eq nanoseconds_eq
  unfold place?
  by_cases inside : (t.shift n).InCalendar
  · rw [if_pos inside, dif_pos ⟨inside, short⟩]
    rfl
  · rw [if_neg inside, dif_neg fun fits => inside fits.1]

theorem add?_ofSeconds (t : Instant) (n : Int) :
    t.add? (.ofSeconds n) = if (t.shift n).InCalendar then some (t.shift n) else none := by
  have whole : (n * 1000000000).tdiv 1000000000 = n := Int.mul_tdiv_cancel n (by decide)
  have part : (n * 1000000000).tmod 1000000000 = 0 := Int.mul_tmod_left n 1000000000
  have nanoseconds_lt := t.nanoseconds_lt
  rw [add?, Span.ofSeconds, whole, part]
  unfold move? carry?
  by_cases small : (t.nanoseconds : Int) < 1000000000
  · rw [if_pos small]
    exact place?_shift (by split <;> omega) (by split <;> omega)
  · rw [if_neg small]
    rcases Int.lt_trichotomy n 0 with back | rfl | forth
    · rw [if_neg (by omega), if_pos back]
      exact place?_shift (by split <;> omega) (by split <;> omega)
    · rw [if_neg (by omega), if_neg (by omega)]
      exact place?_shift (by simp) (by simp)
    · rw [if_pos (.inl forth)]
      exact place?_shift (by split <;> omega) (by split <;> omega)

/-- That a tolerance around an instant does not lead out of the calendar. -/
def Leeway (t : Instant) (n : Int) : Prop :=
  (t.shift n).InCalendar ∧ (t.shift (-n)).InCalendar

instance (t : Instant) (n : Int) : Decidable (t.Leeway n) :=
  inferInstanceAs (Decidable (_ ∧ _))

theorem Dated.leeway (dated : t.Dated) (nonneg : 0 ≤ n) (short : n ≤ 7956864576000) :
    t.Leeway n := by
  rw [dated_iff] at dated
  unfold Leeway InCalendar shift firstSecond lastSecond
  dsimp only
  split <;> split <;> omega

theorem Dated.le_shift (dated : t.Dated) (early : u.Dated) (nonneg : 0 ≤ n)
    (out : ¬ (t.shift (-n)).InCalendar) : u ≤ t.shift n := by
  rw [dated_iff] at dated early
  have later : u.seconds < (t.shift n).seconds := by
    unfold InCalendar shift firstSecond lastSecond at *
    dsimp only at *
    split <;> split at out <;> omega
  exact fun lt => lt.elim (by omega) (by omega)

end Instant

namespace Certificate

variable {c : Certificate} {now : Instant} {n : Int}

/-- That a certificate is valid at an instant, give or take some seconds at both ends. -/
structure ValidAt (c : Certificate) (now : Instant) (n : Int) : Prop where
  ordered : c.notBefore ≤ c.notAfter
  begun : c.notBefore ≤ now.shift n
  lasts : now.shift (-n) ≤ c.notAfter

theorem neg_ofSeconds (n : Int) : (Span.ofSeconds n).neg = .ofSeconds (-n) := by
  simp [Span.neg, Span.ofSeconds]

theorem checkValidity_ofSeconds (c : Certificate) (now : Instant) (n : Int) : ∃ void early late,
    c.checkValidity now (.ofSeconds n) =
      if c.notBefore ≤ c.notAfter then
        if (now.shift n).InCalendar then
          if c.notBefore ≤ now.shift n then
            if (now.shift (-n)).InCalendar then
              if now.shift (-n) ≤ c.notAfter then some (.ok ()) else some (.error late)
            else none
          else some (.error early)
        else none
      else some (.error void) := by
  refine ⟨?void, ?early, ?late, ?_⟩
  rotate_right
  unfold checkValidity
  rw [neg_ofSeconds, Instant.add?_ofSeconds, Instant.add?_ofSeconds]
  by_cases ordered : c.notBefore ≤ c.notAfter
  swap
  · rw [if_pos (Instant.not_le.1 ordered), if_neg ordered]
  rw [if_neg (Instant.not_lt.2 ordered), if_pos ordered]
  by_cases ahead : (now.shift n).InCalendar
  swap
  · rw [if_neg ahead, if_neg ahead]
    rfl
  rw [if_pos ahead, if_pos ahead, Option.bind_eq_bind, Option.bind_some]
  by_cases begun : c.notBefore ≤ now.shift n
  swap
  · rw [if_pos (Instant.not_le.1 begun), if_neg begun]
    rfl
  rw [if_neg (Instant.not_lt.2 begun), if_pos begun]
  by_cases back : (now.shift (-n)).InCalendar
  swap
  · rw [if_neg back, if_neg back]
    rfl
  rw [if_pos back, if_pos back, Option.bind_some]
  by_cases lasts : now.shift (-n) ≤ c.notAfter
  swap
  · rw [if_pos (Instant.not_le.1 lasts), if_neg lasts]
    rfl
  rw [if_neg (Instant.not_lt.2 lasts), if_pos lasts]
  rfl

theorem checkValidity_eq_ok_iff : c.checkValidity now (.ofSeconds n) = some (.ok ()) ↔
    now.Leeway n ∧ c.ValidAt now n := by
  obtain ⟨void, early, late, verdict⟩ := checkValidity_ofSeconds c now n
  rw [verdict]
  constructor
  · intro valid
    split_ifs at valid with ordered ahead begun back lasts <;> cases valid
    exact ⟨⟨ahead, back⟩, ordered, begun, lasts⟩
  · rintro ⟨⟨ahead, back⟩, ordered, begun, lasts⟩
    rw [if_pos ordered, if_pos ahead, if_pos begun, if_pos back, if_pos lasts]

theorem checkValidity_eq_none_iff : c.checkValidity now (.ofSeconds n) = none ↔
    c.notBefore ≤ c.notAfter ∧ (¬ (now.shift n).InCalendar ∨
      (c.notBefore ≤ now.shift n ∧ ¬ (now.shift (-n)).InCalendar)) := by
  obtain ⟨void, early, late, verdict⟩ := checkValidity_ofSeconds c now n
  rw [verdict]
  split_ifs <;> simp [*]

end Certificate

theorem Text.isEmpty_trim (s : String) : (Text.trim s).isEmpty = Text.allBlank s := by
  have kept : (s.toList.dropWhile isBlank).all isBlank = s.toList.all isBlank := by
    induction s.toList with
    | nil => rfl
    | cons c rest ih =>
      by_cases blank : isBlank c = true
      · rw [List.dropWhile_cons_of_pos blank, ih, List.all_cons, blank, Bool.true_and]
      · rw [List.dropWhile_cons_of_neg blank]
  rw [Bool.eq_iff_iff, allBlank, ← kept, ← trimEnd_eq_nil_iff, String.isEmpty_iff, trim]
  exact String.ofList_eq_empty_iff

namespace Party

variable {c : Certificate} {s : Settings} {key : Option OwnedKey} {now : Instant}

theorem build_eq_none_iff : (build c key s now).run = none ↔
    c.checkValidity now s.certificateTolerance = none := by
  unfold build
  rw [ExceptT.run_bind]
  cases c.checkValidity now s.certificateTolerance with
  | none => simp [ExceptT.run, ExceptT.mk]
  | some r =>
    cases r with
    | error e => simp [ExceptT.run, ExceptT.mk]
    | ok =>
      simp only [ExceptT.run, ExceptT.mk, Option.bind_eq_bind, Option.bind_some, reduceCtorEq,
        iff_false]
      split <;> exact nofun

theorem exists_build_eq_ok_iff : (∃ p, (build c key s now).run = some (.ok p)) ↔
    c.checkValidity now s.certificateTolerance = some (.ok ()) ∧
      Text.allBlank c.commonName = false := by
  simp only [build_eq_ok_iff, Text.isEmpty_trim, exists_and_left, exists_eq, and_true]

end Party

/-- Under settings that are loaded, a counter-party is built exactly if its certificate is valid at
the time, give or take the tolerance, and has a name that is not blank, and otherwise there is an
error; but there is no result at all if the tolerance leads out of the calendar, which one of up to
7956864576000 seconds never does. -/
theorem Config.counter_verdict {c : Config} {s : Settings} {certificate : Certificate}
    {now : Instant} (loaded : c.settings = .ok s) (today : now.Dated)
    (start : certificate.notBefore.Dated) :
    ((Party.counter certificate s now).run = none ↔
      certificate.notBefore ≤ certificate.notAfter ∧ ¬ now.Leeway c.certificateSeconds) ∧
    ((∃ p, (Party.counter certificate s now).run = some (.ok p)) ↔
      now.Leeway c.certificateSeconds ∧ certificate.ValidAt now c.certificateSeconds ∧
        Text.allBlank certificate.commonName = false) ∧
    (c.certificateSeconds ≤ 7956864576000 → now.Leeway c.certificateSeconds) := by
  obtain ⟨nonneg, tolerance_eq⟩ := (settings_eq_ok_iff.1 loaded).2.2.1
  unfold Span.ofSeconds? at tolerance_eq
  split at tolerance_eq
  swap
  · cases tolerance_eq
  replace tolerance_eq := Option.some.inj tolerance_eq
  unfold Party.counter
  rw [Party.build_eq_none_iff, Party.exists_build_eq_ok_iff, ← tolerance_eq,
    Certificate.checkValidity_eq_none_iff, Certificate.checkValidity_eq_ok_iff, and_assoc]
  refine ⟨and_congr_right fun _ => ?_, Iff.rfl, fun short => today.leeway nonneg short⟩
  constructor
  · rintro (out | ⟨-, out⟩) ⟨ahead, back⟩
    · exact out ahead
    · exact out back
  · intro out
    by_cases ahead : (now.shift c.certificateSeconds).InCalendar
    · have back := fun back => out ⟨ahead, back⟩
      exact .inr ⟨today.le_shift start nonneg back, back⟩
    · exact .inl ahead

namespace Sample

theorem certificate_valid (name : String) (seed : List UInt8) {n : Int}
    (begun : yearStart ≤ now.shift n) (lasts : now.shift (-n) ≤ yearEnd) :
    (certificate name seed).ValidAt now n :=
  have ordered : yearStart ≤ yearEnd := by decide
  ⟨ordered, begun, lasts⟩

theorem day_tolerance :
    (config 86400).settings = .ok (tolerant 86400) ∧ now.Dated ∧ yearStart.Dated ∧
    (Party.counter (certificate "Seller" sellerSeed) (tolerant 86400) now).run ≠ none ∧
    ∃ p, (Party.counter (certificate "Seller" sellerSeed) (tolerant 86400) now).run =
      some (.ok p) := by
  have loaded : (config 86400).settings = .ok (tolerant 86400) :=
    config_settings (by decide) (by decide)
  have today : now.Dated := by decide
  have start : (certificate "Seller" sellerSeed).notBefore.Dated :=
    show yearStart.Dated by decide
  obtain ⟨missing, found, safe⟩ := Config.counter_verdict loaded today start
  have leeway : now.Leeway 86400 := safe (by decide)
  refine ⟨loaded, today, start, fun none => (missing.1 none).2 leeway, found.2 ⟨leeway, ?_, ?_⟩⟩
  · exact certificate_valid _ _ (by decide) (by decide)
  · exact show Text.allBlank "Seller" = false by decide

theorem far_tolerance :
    (config 9000000000000).settings = .ok (tolerant 9000000000000) ∧
    now.Dated ∧ yearStart.Dated ∧ yearEnd.Dated ∧
    (certificate "Seller" sellerSeed).ValidAt now 9000000000000 ∧
    Text.allBlank "Seller" = false ∧
    (Party.counter (certificate "Seller" sellerSeed) (tolerant 9000000000000) now).run = none := by
  have loaded : (config 9000000000000).settings = .ok (tolerant 9000000000000) :=
    config_settings (by decide) (by decide)
  have valid : (certificate "Seller" sellerSeed).ValidAt now 9000000000000 :=
    certificate_valid _ _ (by decide) (by decide)
  have out : ¬ (now.shift 9000000000000).InCalendar := by decide
  refine ⟨loaded, by decide, by decide, by decide, valid, by decide, ?_⟩
  exact Party.build_eq_none_iff.2
    (Certificate.checkValidity_eq_none_iff.2 ⟨valid.ordered, .inl out⟩)

end Sample

end Parley
