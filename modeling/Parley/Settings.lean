import Parley.Digest.Algorithm
import Parley.Time.Instant

namespace Parley

structure Settings where
  accepted : List HashAlgorithm
  /-- How far the timestamp of a message may be from now. -/
  timestampTolerance : Span
  /-- How far a certificate's window is stretched at both ends. -/
  certificateTolerance : Span
  idAttempts : Nat
  deriving DecidableEq

namespace Settings

def defaultTimestampTolerance : Int := 30

def defaultCertificateTolerance : Int := 24 * 3600

def defaultIdAttempts : Nat := 32

def standard : Settings where
  accepted := [.sha256, .sha512, .blake3]
  timestampTolerance := .ofSeconds defaultTimestampTolerance
  certificateTolerance := .ofSeconds defaultCertificateTolerance
  idAttempts := defaultIdAttempts

def accepts (s : Settings) (a : HashAlgorithm) : Bool :=
  s.accepted.contains a

/-- The algorithm new digests are taken with. Settings that are loaded accept at least one. -/
def preferred (s : Settings) : HashAlgorithm :=
  (HashAlgorithm.preferred? s.accepted).getD .sha256

end Settings

end Parley
