import Mathlib.Data.List.Basic
import Parley.Message.Basic
import Parley.Proofs.Json
import Parley.Proofs.Time

namespace Parley

open Json

namespace Text.Base64

theorem value?_symbol {v : Nat} (small : v < 64) : value? (symbol v) = some v := by
  have all : ∀ v < 64, value? (symbol v) = some v := by decide
  exact all v small

theorem symbol_ne_pad {v : Nat} (small : v < 64) : symbol v ≠ '=' := by
  have all : ∀ v < 64, symbol v ≠ '=' := by decide
  exact all v small

theorem ofNat_eq {n : Nat} {a : UInt8} (same : n = a.toNat) : UInt8.ofNat n = a := by
  rw [same, UInt8.ofNat_toNat]

theorem decode_encode (bytes : List UInt8) : decode (encode bytes) = some bytes := by
  induction bytes using encode.induct with
  | case1 => rfl
  | case2 a =>
    have a_lt := a.toNat_lt
    rw [encode, decode, value?_symbol (by omega), value?_symbol (by omega)]
    have byte : UInt8.ofNat (a.toNat / 4 * 4 + a.toNat % 4 * 16 / 16) = a := ofNat_eq (by omega)
    have whole : a.toNat % 4 * 16 % 16 = 0 := by omega
    simp only [Option.bind_eq_bind, Option.bind_some, whole, ↓reduceIte, byte]
  | case3 a b =>
    have a_lt := a.toNat_lt
    have b_lt := b.toNat_lt
    rw [encode, decode, value?_symbol (by omega), value?_symbol (by omega),
      value?_symbol (by omega)]
    · have byte : UInt8.ofNat (a.toNat / 4 * 4 + (a.toNat % 4 * 16 + b.toNat / 16) / 16) = a :=
        ofNat_eq (by omega)
      have byte' : UInt8.ofNat ((a.toNat % 4 * 16 + b.toNat / 16) % 16 * 16 +
          b.toNat % 16 * 4 / 4) = b := ofNat_eq (by omega)
      have whole : b.toNat % 16 * 4 % 4 = 0 := by omega
      simp only [Option.bind_eq_bind, Option.bind_some, whole, ↓reduceIte, byte, byte']
    · intro pad
      exact absurd pad (symbol_ne_pad (by omega))
  | case4 a b c rest ih =>
    have a_lt := a.toNat_lt
    have b_lt := b.toNat_lt
    have c_lt := c.toNat_lt
    have full : symbol (c.toNat % 64) ≠ '=' := symbol_ne_pad (by omega)
    rw [encode, decode, value?_symbol (by omega), value?_symbol (by omega),
      value?_symbol (by omega), value?_symbol (by omega), ih]
    · have byte : UInt8.ofNat (a.toNat / 4 * 4 + (a.toNat % 4 * 16 + b.toNat / 16) / 16) = a :=
        ofNat_eq (by omega)
      have byte' : UInt8.ofNat ((a.toNat % 4 * 16 + b.toNat / 16) % 16 * 16 +
          (b.toNat % 16 * 4 + c.toNat / 64) / 4) = b := ofNat_eq (by omega)
      have byte'' : UInt8.ofNat ((b.toNat % 16 * 4 + c.toNat / 64) % 4 * 64 + c.toNat % 64) = c :=
        ofNat_eq (by omega)
      simp only [Option.bind_eq_bind, Option.bind_some, byte, byte', byte'']
    · intro _ pad
      exact absurd pad full
    · intro pad
      exact absurd pad full

theorem encode_injective {a b : List UInt8} (same : encode a = encode b) : a = b := by
  refine Option.some.inj ?_
  rw [← decode_encode a, same, decode_encode]

end Text.Base64

theorem bytesToJson_inj {a b : List UInt8} : bytesToJson a = bytesToJson b ↔ a = b := by
  refine ⟨fun same => ?_, fun same => by rw [same]⟩
  exact Text.Base64.encode_injective (String.ofList_injective (Json.text.inj same))

theorem HashAlgorithm.toJson_inj {a b : HashAlgorithm} : a.toJson = b.toJson ↔ a = b := by
  refine ⟨fun same => ?_, fun same => by rw [same]⟩
  have names : a.name = b.name := Json.text.inj same
  revert names
  cases a <;> cases b <;> decide

theorem Digest.toJson_inj {h k : Digest} : h.toJson = k.toJson ↔ h = k := by
  refine ⟨fun same => ?_, fun same => by rw [same]⟩
  simp only [toJson, object.injEq, List.cons.injEq, Prod.mk.injEq, true_and, and_true,
    HashAlgorithm.toJson_inj, bytesToJson_inj] at same
  cases h
  cases k
  obtain ⟨rfl, rfl⟩ := same
  rfl

theorem wordToJson_inj {n m : UInt64} : wordToJson n = wordToJson m ↔ n = m := by
  refine ⟨fun same => ?_, fun same => by rw [same]⟩
  exact UInt64.toNat_inj.1 (Int.ofNat.inj (Json.int.inj same))

theorem Instant.toJson_inj {t u : Instant} : t.toJson = u.toJson ↔ t.carried = u.carried := by
  rw [← text_eq_iff]
  exact ⟨fun same => Json.text.inj same, fun same => by rw [toJson, same, toJson]⟩

def Signature.carried (s : Signature) : Signature :=
  { s with timestamp := s.timestamp.carried }

theorem Signature.carried_unsigned {t : Instant} (regular : t.Regular) (scheme : SignatureScheme) :
    (unsigned t scheme).carried = unsigned t scheme := by
  unfold carried unsigned
  rw [(Instant.regular_canonical.2 regular).carried_eq, Instant.canonical_canonical]

theorem Signature.toJson_inj {s t : Signature} : s.toJson = t.toJson ↔ s.carried = t.carried := by
  obtain ⟨timestamp, scheme, sum⟩ := s
  obtain ⟨timestamp', scheme', sum'⟩ := t
  cases scheme
  cases scheme'
  cases sum <;> cases sum' <;>
    simp [toJson, carried, Instant.toJson_inj, bytesToJson_inj]

theorem Arguments.toJson_inj {a b : Arguments} : a.toJson = b.toJson ↔ a = b := by
  refine ⟨fun same => ?_, fun same => by rw [same]⟩
  obtain ⟨entries, sorted⟩ := a
  obtain ⟨entries', sorted'⟩ := b
  have entries_eq : entries = entries' := by
    refine List.map_injective_iff.2 ?_ (Json.object.inj same)
    rintro ⟨k, v⟩ ⟨k', v'⟩ pair
    cases pair
    rfl
  subst entries_eq
  rfl

theorem Contract.toJson_inj {c d : Contract} : c.toJson = d.toJson ↔ c = d := by
  refine ⟨fun same => ?_, fun same => by rw [same]⟩
  simp only [toJson, object.injEq, List.cons.injEq, Prod.mk.injEq, true_and, and_true,
    Digest.toJson_inj, Arguments.toJson_inj] at same
  cases c
  cases d
  obtain ⟨rfl, rfl⟩ := same
  rfl

namespace Message

variable {m m' : Message}

def carried : Message → Message
  | .offer m => .offer { m with
      validAfter := m.validAfter.carried
      validUntil := m.validUntil.carried
      signature := m.signature.carried }
  | .acceptance m => .acceptance { m with signature := m.signature.carried }
  | .rejection m => .rejection { m with signature := m.signature.carried }

/-- That a message is what is read of it, like every message that was decoded. -/
def Precise (m : Message) : Prop :=
  m.carried = m

instance : DecidablePred Precise := fun m => inferInstanceAs (Decidable (m.carried = m))

theorem members_inj : m.members = m'.members ↔ m.carried = m'.carried := by
  cases m with
  | offer m =>
    cases m' with
    | offer m' =>
      simp only [members, Offer.members, carried, List.cons.injEq, Prod.mk.injEq, true_and,
        and_true, wordToJson_inj, Digest.toJson_inj, Instant.toJson_inj, Signature.toJson_inj,
        array.injEq, (List.map_injective_iff.2 fun _ _ => Contract.toJson_inj.1).eq_iff,
        offer.injEq, Offer.mk.injEq]
    | _ => simp [members, Offer.members, Acceptance.members, Rejection.members, carried]
  | acceptance m =>
    cases m' with
    | acceptance m' =>
      simp only [members, Acceptance.members, carried, List.cons.injEq, Prod.mk.injEq, true_and,
        and_true, wordToJson_inj, Digest.toJson_inj, Signature.toJson_inj, acceptance.injEq,
        Acceptance.mk.injEq]
    | _ => simp [members, Offer.members, Acceptance.members, Rejection.members, carried]
  | rejection m =>
    cases m' with
    | rejection m' =>
      simp only [members, Rejection.members, carried, List.cons.injEq, Prod.mk.injEq, true_and,
        and_true, wordToJson_inj, Digest.toJson_inj, Signature.toJson_inj, rejection.injEq,
        Rejection.mk.injEq]
    | _ => simp [members, Offer.members, Acceptance.members, Rejection.members, carried]

theorem canonicalBytes_inj : m.canonicalBytes = m'.canonicalBytes ↔ m.carried = m'.carried := by
  rw [← members_inj]
  refine ⟨fun same => ?_, fun same => ?_⟩
  · exact Json.object.inj (compact_injective (Text.utf8_injective same))
  · rw [canonicalBytes, canonicalText, same, canonicalBytes, canonicalText]

theorem Precise.eq_of_canonicalBytes (precise : m.Precise) (precise' : m'.Precise)
    (same : m.canonicalBytes = m'.canonicalBytes) : m = m' := by
  rw [← precise, canonicalBytes_inj.1 same, precise']

theorem carried_withSum (sum : Option (List UInt8)) (m : Message) :
    (m.withSum sum).carried = m.carried.withSum sum := by
  cases m <;> rfl

theorem Precise.sign (precise : m.Precise) (scheme : SignatureScheme) (seed : List UInt8) :
    (m.sign scheme seed).Precise := by
  unfold Message.sign Precise
  rw [carried_withSum, precise]

theorem kind_carried (m : Message) : m.carried.kind = m.kind := by
  cases m <;> rfl

theorem signingBytes_inj :
    m.signingBytes = m'.signingBytes ↔ m.carried.withSum none = m'.carried.withSum none := by
  rw [signingBytes, signingBytes, canonicalBytes_inj, carried_withSum, carried_withSum]

/-- Messages have the same canonical bytes only if they are of one kind and agree in every field, with
their instants cut to the millisecond and a leap second that does not end its minute taken for the second
after it. They are signed as the same bytes only if they agree so apart from the sum. -/
theorem bytes_tell (m m' : Message) :
    (m.canonicalBytes = m'.canonicalBytes ↔ m.kind = m'.kind ∧ m.carried = m'.carried) ∧
      (m.signingBytes = m'.signingBytes ↔
        m.kind = m'.kind ∧ m.carried.withSum none = m'.carried.withSum none) := by
  have kind_eq : m.carried.withSum none = m'.carried.withSum none → m.kind = m'.kind := by
    intro same
    have kinds := congrArg kind same
    rwa [withSum, withSum, kind_withSignature, kind_withSignature, kind_carried,
      kind_carried] at kinds
  rw [canonicalBytes_inj, signingBytes_inj]
  refine ⟨⟨fun same => ⟨kind_eq (by rw [same]), same⟩, And.right⟩, ?_⟩
  exact ⟨fun same => ⟨kind_eq same, same⟩, And.right⟩

end Message

namespace Sample

def digest (byte : UInt8) : Digest := ⟨.sha256, List.replicate 32 byte, rfl⟩

def openFrom (t : Instant) : Offer :=
  ⟨7, digest 1, digest 2, t, justAfter, [⟨digest 3, .empty⟩], .unsigned justAfter .ed25519⟩

theorem strayLeap_untold :
    (Message.offer (openFrom strayLeap)).canonicalBytes =
      (Message.offer (openFrom afterLeap)).canonicalBytes ∧
    (Message.offer (openFrom strayLeap)).signingBytes =
      (Message.offer (openFrom afterLeap)).signingBytes ∧
    (openFrom strayLeap).validAfter.canonical ≠ (openFrom afterLeap).validAfter.canonical ∧
    (openFrom strayLeap).validAfter ≤ (openFrom strayLeap).validUntil ∧
    ¬ (openFrom afterLeap).validAfter ≤ (openFrom afterLeap).validUntil := by
  have same : (Message.offer (openFrom strayLeap)).carried =
      (Message.offer (openFrom afterLeap)).carried := by
    decide
  refine ⟨Message.canonicalBytes_inj.2 same, ?_, by decide, by decide, by decide⟩
  rw [Message.signingBytes_inj, same]

end Sample

end Parley
