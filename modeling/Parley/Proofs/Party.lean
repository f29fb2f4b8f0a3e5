import Parley.Party.Directory
import Parley.Proofs.Ed25519.Points

namespace Parley

theorem PublicKey.length_ofSeed (seed : List UInt8) : (PublicKey.ofSeed seed).bytes.length = 32 := by
  simp [PublicKey.ofSeed, Ed25519.publicKey, Ed25519.Point.encode]

theorem PublicKey.check_ofSeed (seed : List UInt8) : (PublicKey.ofSeed seed).check = .ok () := by
  obtain ⟨point, decoded, -⟩ :=
    Ed25519.decode?_encoding ((Ed25519.expand seed).1 • Ed25519.generator)
  have decoded : Ed25519.Point.decode? (PublicKey.ofSeed seed).bytes = some point := by
    rw [← Ed25519.publicKey_eq] at decoded
    exact decoded
  have algorithm : (PublicKey.ofSeed seed).algorithm = .ed25519 := rfl
  unfold check
  rw [algorithm, decoded, PublicKey.length_ofSeed]
  rfl

theorem SignatureScheme.verify_sign (scheme : SignatureScheme) (seed message : List UInt8) :
    scheme.verify (.ofSeed seed) message (scheme.sign seed message) = true := by
  cases scheme
  have length := PublicKey.length_ofSeed seed
  simp only [SignatureScheme.verify, length, sign, keyAlgorithm]
  simp [PublicKey.ofSeed, Ed25519.verify_sign]

theorem Settings.preferred_mem {s : Settings} (some_accepted : s.accepted ≠ []) :
    s.preferred ∈ s.accepted := by
  unfold preferred
  cases h : HashAlgorithm.preferred? s.accepted with
  | some a => exact HashAlgorithm.mem_of_preferred? h
  | none => exact absurd (HashAlgorithm.preferred?_eq_none_iff.1 h) some_accepted

theorem Timely.run_bind_eq_ok_iff {α β : Type} {x : Timely α} {f : α → Timely β} {b : β} :
    (x >>= f).run = some (.ok b) ↔ ∃ a, x.run = some (.ok a) ∧ (f a).run = some (.ok b) := by
  rw [ExceptT.run_bind]
  cases x.run with
  | none => simp
  | some r =>
    cases r with
    | error e => simp
    | ok a => simp

namespace Party

/-- That a party was built under some settings, whenever that was. -/
inductive Built (s : Settings) (p : Party) : Prop
  | counter (c : Certificate) (now : Instant) (made : (counter c s now).run = some (.ok p))
  | owned (c : Certificate) (seed : List UInt8) (now : Instant)
      (made : (owned c seed s now).run = some (.ok p))

variable {s : Settings} {p q : Party} {key : OwnedKey}

def ofCertificate (c : Certificate) (key : Option OwnedKey) (s : Settings) : Party :=
  ⟨Text.trim c.commonName, c, s.accepted.map c.fingerprint, c.fingerprint s.preferred, key⟩

theorem build_eq_ok_iff {c : Certificate} {key : Option OwnedKey} {now : Instant} :
    (build c key s now).run = some (.ok p) ↔
      c.checkValidity now s.certificateTolerance = some (.ok ()) ∧
        (Text.trim c.commonName).isEmpty = false ∧ p = ofCertificate c key s := by
  unfold build
  rw [Timely.run_bind_eq_ok_iff]
  constructor
  · rintro ⟨_, valid, made⟩
    dsimp only at made
    split at made
    · cases made
    next named =>
      cases made
      exact ⟨valid, Bool.eq_false_iff.2 named, rfl⟩
  · rintro ⟨valid, named, rfl⟩
    refine ⟨(), valid, ?_⟩
    dsimp only
    rw [named]
    rfl

theorem owned_eq_ok {c : Certificate} {seed : List UInt8} {now : Instant}
    (made : (owned c seed s now).run = some (.ok p)) :
    ∃ scheme, c.publicKey = .ofSeed seed ∧
      SignatureScheme.select c.publicKey.algorithm s.accepted = .ok scheme ∧
      (build c (some ⟨seed, scheme⟩) s now).run = some (.ok p) := by
  unfold owned at made
  rw [Timely.run_bind_eq_ok_iff] at made
  obtain ⟨_, -, made⟩ := made
  split at made
  · cases made
  next matching =>
    rw [Timely.run_bind_eq_ok_iff] at made
    obtain ⟨scheme, selected, made⟩ := made
    exact ⟨scheme, not_not.1 matching, Option.some.inj selected, made⟩

theorem Built.eq_of_certificate (h : p.Built s) :
    p = ofCertificate p.certificate p.key s := by
  cases h with
  | counter c now made =>
    obtain ⟨-, -, rfl⟩ := build_eq_ok_iff.1 made
    rfl
  | owned c seed now made =>
    obtain ⟨scheme, -, -, made⟩ := owned_eq_ok made
    obtain ⟨-, -, rfl⟩ := build_eq_ok_iff.1 made
    rfl

theorem Built.fingerprints_eq (h : p.Built s) :
    p.fingerprints = s.accepted.map p.certificate.fingerprint :=
  congrArg fingerprints h.eq_of_certificate

theorem Built.preferredFingerprint_eq (h : p.Built s) :
    p.preferredFingerprint = p.certificate.fingerprint s.preferred :=
  congrArg preferredFingerprint h.eq_of_certificate

theorem Built.algorithm_mem (h : p.Built s) {f : Digest} (mem : f ∈ p.fingerprints) :
    f.algorithm ∈ s.accepted := by
  rw [h.fingerprints_eq] at mem
  obtain ⟨a, ha, rfl⟩ := List.mem_map.1 mem
  exact ha

theorem Built.preferredFingerprint_mem (h : p.Built s) (some_accepted : s.accepted ≠ []) :
    p.preferredFingerprint ∈ p.fingerprints := by
  rw [h.preferredFingerprint_eq, h.fingerprints_eq]
  exact List.mem_map_of_mem (Settings.preferred_mem some_accepted)

theorem Built.same (hp : p.Built s) (hq : q.Built s) (same : p.certificate = q.certificate) :
    p.name = q.name ∧ p.fingerprints = q.fingerprints ∧
      p.preferredFingerprint = q.preferredFingerprint := by
  rw [hp.eq_of_certificate, hq.eq_of_certificate, same]
  exact ⟨rfl, rfl, rfl⟩

theorem ownedKey_eq_ok_iff : p.ownedKey = .ok key ↔ p.key = some key := by
  unfold ownedKey
  cases p.key with
  | none => simp
  | some k => simp

theorem Built.of_key (h : p.Built s) (owned : p.key = some key) :
    p.certificate.publicKey = .ofSeed key.seed ∧ key.scheme.hashAlgorithm ∈ s.accepted := by
  cases h with
  | counter c now made =>
    obtain ⟨-, -, rfl⟩ := build_eq_ok_iff.1 made
    cases owned
  | owned c seed now made =>
    obtain ⟨scheme, matching, selected, made⟩ := owned_eq_ok made
    obtain ⟨-, -, rfl⟩ := build_eq_ok_iff.1 made
    cases owned
    refine ⟨matching, ?_⟩
    unfold SignatureScheme.select at selected
    split at selected
    next found =>
      cases selected
      have := List.find?_some found
      simp only [Bool.and_eq_true, List.contains_iff_mem] at this
      exact this.2
    · cases selected

theorem Built.accepted_ne_nil (h : p.Built s) (owned : p.key = some key) : s.accepted ≠ [] :=
  List.ne_nil_of_mem (h.of_key owned).2

theorem verify_eq_ok_iff {message : List UInt8} {g : Signature} :
    p.verify message g s = .ok () ↔ g.scheme.hashAlgorithm ∈ s.accepted ∧
      ∃ sum, g.sum = some sum ∧ g.scheme.verify p.certificate.publicKey message sum = true := by
  unfold verify Settings.accepts
  by_cases accepted : g.scheme.hashAlgorithm ∈ s.accepted
  · cases g.sum with
    | none => simp [accepted]
    | some sum => simp [accepted]
  · simp [accepted]

theorem verify_of_certificate_eq (same : q.certificate = p.certificate) {message : List UInt8}
    {g : Signature} (verified : p.verify message g s = .ok ()) : q.verify message g s = .ok () := by
  rw [verify_eq_ok_iff] at verified ⊢
  rw [same]
  exact verified

theorem Built.verify_sign (h : p.Built s) (owned : p.key = some key)
    (same : q.certificate = p.certificate) {message : List UInt8} {g : Signature}
    (scheme : g.scheme = key.scheme) (sum : g.sum = some (key.scheme.sign key.seed message)) :
    q.verify message g s = .ok () := by
  obtain ⟨matching, accepted⟩ := h.of_key owned
  rw [verify_eq_ok_iff, scheme, same, matching]
  exact ⟨accepted, _, sum, SignatureScheme.verify_sign key.scheme key.seed message⟩

theorem built_counter {c : Certificate} {now : Instant}
    (valid : c.checkValidity now s.certificateTolerance = some (.ok ()))
    (named : (Text.trim c.commonName).isEmpty = false) : (ofCertificate c none s).Built s :=
  .counter c now (build_eq_ok_iff.2 ⟨valid, named, rfl⟩)

theorem built_owned {c : Certificate} {seed : List UInt8} {now : Instant}
    (valid : c.checkValidity now s.certificateTolerance = some (.ok ()))
    (named : (Text.trim c.commonName).isEmpty = false) (matching : c.publicKey = .ofSeed seed)
    (accepted : .sha512 ∈ s.accepted) :
    (ofCertificate c (some ⟨seed, .ed25519⟩) s).Built s := by
  have select : SignatureScheme.select c.publicKey.algorithm s.accepted = .ok .ed25519 := by
    simp [matching, PublicKey.ofSeed, SignatureScheme.select, SignatureScheme.all,
      SignatureScheme.keyAlgorithm, SignatureScheme.hashAlgorithm, accepted]
  refine .owned c seed now ?_
  unfold owned
  rw [Timely.run_bind_eq_ok_iff]
  refine ⟨(), congrArg some (matching ▸ PublicKey.check_ofSeed seed), ?_⟩
  rw [if_neg (not_not.2 matching), Timely.run_bind_eq_ok_iff]
  exact ⟨.ed25519, congrArg some select, build_eq_ok_iff.2 ⟨valid, named, rfl⟩⟩

end Party

namespace Sample

def settings : Settings := ⟨[.sha512], .ofSeconds 30, .ofSeconds 0, 4⟩

def now : Instant := ⟨1717200000, 0, by decide⟩

def yearStart : Instant := ⟨1704067200, 0, by decide⟩

def yearEnd : Instant := ⟨1735689600, 0, by decide⟩

def certificate (name : String) (seed : List UInt8) : Certificate :=
  ⟨name, yearStart, yearEnd, .ofSeed seed⟩

def buyerSeed : List UInt8 := List.replicate 32 1

def sellerSeed : List UInt8 := List.replicate 32 2

def carrierSeed : List UInt8 := List.replicate 32 3

def owned (name : String) (seed : List UInt8) : Party :=
  .ofCertificate (certificate name seed) (some ⟨seed, .ed25519⟩) settings

def counter (name : String) (seed : List UInt8) : Party :=
  .ofCertificate (certificate name seed) none settings

theorem checkValidity_certificate (name : String) (seed : List UInt8) :
    (certificate name seed).checkValidity now settings.certificateTolerance = some (.ok ()) := by
  have latest : now.add? settings.certificateTolerance = some now := by decide
  have earliest : now.add? settings.certificateTolerance.neg = some now := by decide
  have order : ¬ yearEnd < yearStart ∧ ¬ now < yearStart ∧ ¬ yearEnd < now := by decide
  simp [Certificate.checkValidity, latest, earliest, certificate, order]

theorem built_owned {name : String} (seed : List UInt8) (named : (Text.trim name).isEmpty = false) :
    (owned name seed).Built settings :=
  Party.built_owned (checkValidity_certificate name seed) named rfl (by decide)

theorem built_counter {name : String} (seed : List UInt8)
    (named : (Text.trim name).isEmpty = false) : (counter name seed).Built settings :=
  Party.built_counter (checkValidity_certificate name seed) named

set_option maxRecDepth 100000 in
theorem fingerprints_nodup : ([certificate "Buyer" buyerSeed, certificate "Seller" sellerSeed,
    certificate "Carrier" carrierSeed].map (·.fingerprint .sha512)).Nodup := by
  decide +kernel

theorem fingerprint_ne : (certificate "Buyer" buyerSeed).fingerprint .sha512 ≠
    (certificate "Seller" sellerSeed).fingerprint .sha512 := by
  have distinct := fingerprints_nodup
  simp only [List.map_cons, List.map_nil, List.nodup_cons, List.mem_cons, not_or] at distinct
  exact distinct.1.1

end Sample

end Parley
