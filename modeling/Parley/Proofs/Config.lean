import Parley.Config.Basic
import Parley.Proofs.Directory

namespace Parley

namespace Config

variable {c : Config} {s : Settings} {accepted found : List HashAlgorithm} {names : List String}

theorem algorithms_nodup (read : algorithms accepted names = .ok found) (once : accepted.Nodup) :
    found.Nodup := by
  induction names generalizing accepted with
  | nil =>
    cases read
    exact once
  | cons name rest ih =>
    rw [algorithms, bind_eq_ok_iff] at read
    obtain ⟨a, -, read⟩ := read
    refine ih read ?_
    split
    · exact once
    next new =>
      rw [List.nodup_append]
      refine ⟨once, by simp, ?_⟩
      rintro b mem _ (_ | ⟨_, ⟨⟩⟩) rfl
      exact new (List.contains_iff_mem.2 mem)

theorem tolerance_eq_ok_iff {key : String} {seconds : Int} {span : Span} :
    tolerance key seconds = .ok span ↔ Span.ofSeconds? seconds = some span := by
  unfold tolerance
  cases Span.ofSeconds? seconds <;> simp

def timestampSeconds (c : Config) : Int :=
  c.security.timestampToleranceSecs.getD Settings.defaultTimestampTolerance

def certificateSeconds (c : Config) : Int :=
  c.security.certificateToleranceSecs.getD Settings.defaultCertificateTolerance

def attempts (c : Config) : Nat :=
  c.negotiation.idGenerationAttempts.getD Settings.defaultIdAttempts

/-- The settings of a configuration are those it asks for, as long as some algorithm is accepted, no
tolerance is negative or longer than a span can be, and at least one id is tried. -/
theorem settings_eq_ok_iff : c.settings = .ok s ↔
    (algorithms [] c.security.acceptedHashAlgorithms = .ok s.accepted ∧ s.accepted ≠ []) ∧
      (0 ≤ c.timestampSeconds ∧ Span.ofSeconds? c.timestampSeconds = some s.timestampTolerance) ∧
      (0 ≤ c.certificateSeconds ∧
        Span.ofSeconds? c.certificateSeconds = some s.certificateTolerance) ∧
      c.attempts = s.idAttempts ∧ s.idAttempts ≠ 0 := by
  obtain ⟨accepted, timestamp, certificate, attempts⟩ := s
  unfold settings
  simp only [bind_eq_ok_iff, guard_bind_eq_ok_iff, tolerance_eq_ok_iff, List.isEmpty_iff, not_or,
    Int.not_lt, pure, Except.pure, Except.ok.injEq, Settings.mk.injEq]
  constructor
  · rintro ⟨_, read, listed, ⟨timely, certified⟩, tried, _, timestamp_eq, _, certificate_eq,
      rfl, rfl, rfl, rfl⟩
    exact ⟨⟨read, listed⟩, ⟨timely, timestamp_eq⟩, ⟨certified, certificate_eq⟩, rfl, tried⟩
  · rintro ⟨⟨read, listed⟩, ⟨timely, timestamp_eq⟩, ⟨certified, certificate_eq⟩, rfl, tried⟩
    exact ⟨_, read, listed, ⟨timely, certified⟩, tried, _, timestamp_eq, _, certificate_eq,
      rfl, rfl, rfl, rfl⟩

theorem settings_nodup (loaded : c.settings = .ok s) : s.accepted.Nodup :=
  algorithms_nodup (settings_eq_ok_iff.1 loaded).1.1 .nil

end Config

namespace Sample

def config (tolerance : Int) : Config where
  security := ⟨["SHA-512", "sha-512"], some 30, some tolerance⟩
  negotiation := ⟨some 4⟩
  logging := .standard
  templates := []

def tolerant (tolerance : Int) : Settings :=
  ⟨[.sha512], .ofSeconds 30, .ofSeconds tolerance, 4⟩

theorem config_settings {tolerance : Int} (nonneg : 0 ≤ tolerance)
    (short : tolerance * 1000 ≤ Span.maxMilliseconds) :
    (config tolerance).settings = .ok (tolerant tolerance) := by
  have read : Config.algorithms [] ["SHA-512", "sha-512"] = .ok [.sha512] := rfl
  have timely : 0 ≤ (30 : Int) ∧ Span.ofSeconds? 30 = some (.ofSeconds 30) := by decide
  have short' : -Span.maxMilliseconds ≤ tolerance * 1000 := by
    unfold Span.maxMilliseconds
    omega
  exact Config.settings_eq_ok_iff.2 ⟨⟨read, List.cons_ne_nil _ _⟩, timely,
    ⟨nonneg, if_pos ⟨short', short⟩⟩, rfl, Nat.succ_ne_zero 3⟩

end Sample

end Parley
