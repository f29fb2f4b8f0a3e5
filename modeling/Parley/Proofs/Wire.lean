import Parley.Message.Request
import Parley.Certificate
import Parley.Proofs.Message
import Parley.Proofs.Reading
import Parley.Proofs.Timestamp

namespace Parley

open Json

variable {b : Bool}

namespace Json

variable {σ α β : Type} {fields : List (RecordField σ)} {name key : String} {get : σ → Option α}
  {set : α → σ → σ} {decode : Reading → Decoded α} {a : α} {s start : σ} {build : σ → Decoded β}
  {v : Json} {rest : List (String × Json)} {p : Prop} [Decidable p]

theorem record_object :
    record fields start build ((Json.object ((key, v) :: rest)).reading b) =
      putMembers fields (memberReadings b ((key, v) :: rest)) start >>= build := by
  rw [reading, List.isEmpty_cons, Bool.and_false, if_neg (by decide)]
  rfl

theorem putMembers_cons (found : fields.find? (·.name == key) = some (.slot name get set decode))
    (absent : get s = none) :
    putMembers fields (memberReadings b ((key, v) :: rest)) s =
      (decode (v.reading b)).map (set · s) >>= putMembers fields (memberReadings b rest) := by
  have fresh : (RecordField.slot name get set decode).present s = false := by
    change (get s).isSome = false
    rw [absent, Option.isSome_none]
  rw [memberReadings, putMembers, found]
  dsimp only
  rw [fresh]
  rfl

theorem putMembers_ok (found : fields.find? (·.name == key) = some (.slot name get set decode))
    (absent : get s = none) (read : decode (v.reading b) = .ok a) :
    putMembers fields (memberReadings b ((key, v) :: rest)) s =
      putMembers fields (memberReadings b rest) (set a s) := by
  rw [putMembers_cons found absent, read]
  rfl

theorem putMembers_if (found : fields.find? (·.name == key) = some (.slot name get set decode))
    (absent : get s = none)
    (read : decode (v.reading b) = if p then .ok a else .error .malformed) :
    putMembers fields (memberReadings b ((key, v) :: rest)) s =
      if p then putMembers fields (memberReadings b rest) (set a s) else .error .malformed := by
  rw [putMembers_cons found absent, read]
  split <;> rfl

theorem map_if {f : α → β} :
    (if p then .ok a else .error .malformed : Decoded α).map f =
      if p then .ok (f a) else .error .malformed := by
  split <;> rfl

theorem bind_if {x : Decoded α} {f : α → Decoded β} :
    ((if p then x else .error .malformed) >>= f) = if p then x >>= f else .error .malformed := by
  split <;> rfl

end Json

theorem decodeBytes_bytesToJson (bytes : List UInt8) :
    decodeBytes ((bytesToJson bytes).reading b) = .ok bytes := by
  simp only [bytesToJson, reading, decodeBytes, decodeText, bind, Except.bind, String.toList_ofList,
    Text.Base64.decode_encode]

theorem decodeWord_wordToJson (n : UInt64) : decodeWord ((wordToJson n).reading b) = .ok n := by
  have small : n.toNat < Nat.pow 2 64 := n.toNat_lt
  rw [wordToJson, reading]
  change (if natOfDigits (digits n.toNat) < Nat.pow 2 64 then
    Except.ok (UInt64.ofNat (natOfDigits (digits n.toNat))) else Except.error _) = _
  rw [natOfDigits_digits, if_pos small, UInt64.ofNat_toNat]

theorem Instant.decode_toJson (t : Instant) :
    Instant.decode (t.toJson.reading b) = if t.Dated then .ok t.carried else .error .malformed := by
  rw [Instant.toJson, reading, decode_text]

theorem HashAlgorithm.decode_toJson (a : HashAlgorithm) : decode (a.toJson.reading b) = .ok a := by
  cases a <;> rfl

theorem SignatureScheme.decode_toJson (s : SignatureScheme) :
    decode (s.toJson.reading b) = .ok s := by
  cases s
  rfl

theorem KeyAlgorithm.decode_toJson (a : KeyAlgorithm) : decode (a.toJson.reading b) = .ok a := by
  cases a
  rfl

theorem Digest.decode_toJson (h : Digest) : decode (h.toJson.reading b) = .ok h := by
  rw [decode, toJson, record_object, putMembers_ok rfl rfl (HashAlgorithm.decode_toJson _),
    putMembers_ok rfl rfl (decodeBytes_bytesToJson _)]
  change (ofSum h.algorithm h.sum).mapError DecodeError.refused = _
  rw [ofSum_sum]
  rfl

theorem PublicKey.decode_toJson (k : PublicKey) : decode (k.toJson.reading b) = .ok k := by
  rw [decode, toJson, record_object, putMembers_ok rfl rfl (KeyAlgorithm.decode_toJson _),
    putMembers_ok rfl rfl (decodeBytes_bytesToJson _)]
  rfl

theorem optional_decodeBytes (bytes : List UInt8) :
    optional decodeBytes ((bytesToJson bytes).reading b) = .ok (some bytes) := by
  have present : optional decodeBytes ((bytesToJson bytes).reading b) =
    (decodeBytes ((bytesToJson bytes).reading b)).map some := rfl
  rw [present, decodeBytes_bytesToJson]
  rfl

theorem Signature.decode_toJson (s : Signature) :
    decode (s.toJson.reading b) =
      if s.timestamp.Dated then .ok s.carried else .error .malformed := by
  obtain ⟨timestamp, scheme, sum⟩ := s
  cases sum with
  | none =>
    change decode ((Json.object [("timestamp", _), ("scheme", _)]).reading b) = _
    rw [decode, record_object, putMembers_if rfl rfl (Instant.decode_toJson _),
      putMembers_ok rfl rfl (SignatureScheme.decode_toJson _)]
    split <;> rfl
  | some sum =>
    change decode ((Json.object [("timestamp", _), ("scheme", _), ("sum", _)]).reading b) = _
    rw [decode, record_object, putMembers_if rfl rfl (Instant.decode_toJson _),
      putMembers_ok rfl rfl (SignatureScheme.decode_toJson _),
      putMembers_ok rfl rfl (optional_decodeBytes _)]
    split <;> rfl

namespace Arguments

theorem putMembers_entries (entries : List (String × String)) (a : Arguments) :
    putMembers (memberReadings b (entries.map fun (k, v) => (k, .text v))) a =
      .ok (entries.foldl (fun a (k, v) => a.insert k v) a) := by
  induction entries generalizing a with
  | nil => rfl
  | cons entry entries ih =>
    rw [List.map_cons, memberReadings, List.foldl_cons, ← ih]
    rfl

theorem insertByKey_last {k v : String} {entries : List (String × String)}
    (last : ∀ entry ∈ entries, entry.1 < k) : insertByKey k v entries = entries ++ [(k, v)] := by
  induction entries with
  | nil => rfl
  | cons entry entries ih =>
    obtain ⟨first, others⟩ := List.forall_mem_cons.1 last
    have later : ¬ k < entry.1 := fun earlier => String.lt_irrefl _ (String.lt_trans earlier first)
    have other : ¬ k = entry.1 := by
      intro same
      rw [same] at first
      exact String.lt_irrefl _ first
    rw [insertByKey, if_neg later, if_neg other, ih others, List.cons_append]

theorem entries_foldl (entries : List (String × String)) (a : Arguments)
    (sorted : (a.entries ++ entries).Pairwise (·.1 < ·.1)) :
    (entries.foldl (fun a (k, v) => a.insert k v) a).entries = a.entries ++ entries := by
  induction entries generalizing a with
  | nil => rw [List.foldl_nil, List.append_nil]
  | cons entry entries ih =>
    have last : ∀ other ∈ a.entries, other.1 < entry.1 := fun other mem =>
      (List.pairwise_append.1 sorted).2.2 other mem entry List.mem_cons_self
    have inserted : (a.insert entry.1 entry.2).entries = a.entries ++ [entry] :=
      insertByKey_last last
    rw [List.foldl_cons, ih _ (by rw [inserted, List.append_assoc]; exact sorted), inserted,
      List.append_assoc, List.singleton_append]

theorem ofList_entries (a : Arguments) : ofList a.entries = a := by
  have entries_eq := entries_foldl a.entries empty a.sorted
  obtain ⟨entries, sorted⟩ := a
  unfold ofList
  dsimp only
  generalize entries.foldl (fun a (k, v) => a.insert k v) empty = found at *
  obtain ⟨entries', sorted'⟩ := found
  obtain rfl : entries' = entries := entries_eq
  rfl

theorem decode_toJson (a : Arguments) : decode (a.toJson.reading b) = .ok a := by
  rw [toJson, reading]
  split
  next hollow =>
    rw [Bool.and_eq_true, List.isEmpty_iff, List.map_eq_nil_iff] at hollow
    obtain ⟨entries, sorted⟩ := a
    obtain ⟨-, rfl⟩ := hollow
    rfl
  next =>
    rw [decode, putMembers_entries]
    exact congrArg _ (ofList_entries a)

end Arguments

theorem decodeList_map {α : Type} {write : α → Json} {decode : Reading → Decoded α} {items : List α}
    (read : ∀ a, decode ((write a).reading b) = .ok a) :
    decodeList decode ((Json.array (items.map write)).reading b) = .ok items := by
  have mapped : mapItems decode (readings b (items.map write)) = .ok items := by
    induction items with
    | nil => rfl
    | cons a items ih => rw [List.map_cons, readings, mapItems, read, ih]; rfl
  rw [reading, decodeList, mapped]
  rfl

theorem Contract.decode_toJson (c : Contract) : decode (c.toJson.reading b) = .ok c := by
  rw [decode, toJson, record_object, putMembers_ok rfl rfl (Digest.decode_toJson _),
    putMembers_ok rfl rfl (Arguments.decode_toJson _)]
  rfl

namespace Offer

def carried (m : Offer) : Offer :=
  { m with
    validAfter := m.validAfter.carried
    validUntil := m.validUntil.carried
    signature := m.signature.carried }

def Dated (m : Offer) : Prop :=
  m.validAfter.Dated ∧ m.validUntil.Dated ∧ m.signature.timestamp.Dated

instance : DecidablePred Dated := fun _ => inferInstanceAs (Decidable (_ ∧ _))

theorem decode_members (m : Offer) :
    decode ((Json.object m.members).reading b) =
      if m.Dated then .ok m.carried else .error .malformed := by
  rw [decode, members, record_object, putMembers_ok rfl rfl (decodeWord_wordToJson _),
    putMembers_ok rfl rfl (Digest.decode_toJson _), putMembers_ok rfl rfl (Digest.decode_toJson _),
    putMembers_if rfl rfl (Instant.decode_toJson _), putMembers_if rfl rfl (Instant.decode_toJson _),
    putMembers_ok rfl rfl (decodeList_map fun _ => Contract.decode_toJson _),
    putMembers_if rfl rfl (Signature.decode_toJson _)]
  rw [← ite_and, ← ite_and, bind_if]
  exact if_congr and_assoc rfl rfl

end Offer

theorem decodeClosing_members {α : Type} {sender : String}
    (known : sender = "acceptorFingerprint" ∨ sender = "rejectorFingerprint")
    {signature : Json} {s : Signature} {p : Prop} [Decidable p]
    (read : Signature.decode (signature.reading b) = if p then .ok s else .error .malformed)
    (id : NegotiationId) (who offeror offerHash : Digest)
    (make : NegotiationId → Digest → Digest → Digest → Signature → α) :
    decodeClosing sender make ((Json.object [("negotiationId", wordToJson id),
        (sender, who.toJson), ("offerorFingerprint", offeror.toJson),
        ("offerHash", offerHash.toJson), ("signature", signature)]).reading b) =
      if p then .ok (make id who offeror offerHash s) else .error .malformed := by
  obtain rfl | rfl := known
  all_goals
    rw [decodeClosing, record_object, putMembers_ok rfl rfl (decodeWord_wordToJson _),
      putMembers_ok rfl rfl (Digest.decode_toJson _), putMembers_ok rfl rfl (Digest.decode_toJson _),
      putMembers_ok rfl rfl (Digest.decode_toJson _), putMembers_if rfl rfl read]
    split <;> rfl

def Acceptance.carried (m : Acceptance) : Acceptance :=
  { m with signature := m.signature.carried }

def Rejection.carried (m : Rejection) : Rejection :=
  { m with signature := m.signature.carried }

theorem Acceptance.decode_members (m : Acceptance) :
    decode ((Json.object m.members).reading b) =
      if m.signature.timestamp.Dated then .ok m.carried else .error .malformed :=
  decodeClosing_members (.inl rfl) m.signature.decode_toJson _ _ _ _ _

theorem Rejection.decode_members (m : Rejection) :
    decode ((Json.object m.members).reading b) =
      if m.signature.timestamp.Dated then .ok m.carried else .error .malformed :=
  decodeClosing_members (.inr rfl) m.signature.decode_toJson _ _ _ _ _

theorem foreseen_wordToJson (depth : Nat) (n : UInt64) : Foreseen depth (wordToJson n) :=
  foreseen_int depth n.toNat_lt

theorem Digest.foreseen_toJson (depth : Nat) (h : Digest) : Foreseen (depth + 1) h.toJson := by
  refine foreseen_object ?_
  simp only [List.forall_mem_cons, List.not_mem_nil, false_implies, implies_true, and_true]
  exact ⟨foreseen_text depth _, foreseen_text depth _⟩

theorem Signature.foreseen_toJson (depth : Nat) (s : Signature) : Foreseen (depth + 1) s.toJson := by
  refine foreseen_object ?_
  obtain ⟨timestamp, scheme, sum⟩ := s
  cases sum with
  | none =>
    simp only [Option.map_none, Option.toList_none, List.append_nil, List.forall_mem_cons,
      List.not_mem_nil, false_implies, implies_true, and_true]
    exact ⟨foreseen_text depth _, foreseen_text depth _⟩
  | some sum =>
    simp only [Option.map_some, Option.toList_some, List.cons_append, List.nil_append,
      List.forall_mem_cons, List.not_mem_nil, false_implies, implies_true, and_true]
    exact ⟨foreseen_text depth _, foreseen_text depth _, foreseen_text depth _⟩

theorem Arguments.foreseen_toJson (depth : Nat) (a : Arguments) : Foreseen (depth + 1) a.toJson := by
  refine foreseen_object fun entry mem => ?_
  obtain ⟨_, -, rfl⟩ := List.mem_map.1 mem
  exact foreseen_text depth _

theorem Contract.foreseen_toJson (depth : Nat) (c : Contract) : Foreseen (depth + 2) c.toJson := by
  refine foreseen_object ?_
  simp only [List.forall_mem_cons, List.not_mem_nil, false_implies, implies_true, and_true]
  exact ⟨Digest.foreseen_toJson depth _, Arguments.foreseen_toJson depth _⟩

namespace Message

def Dated : Message → Prop
  | .offer m => m.Dated
  | .acceptance m => m.signature.timestamp.Dated
  | .rejection m => m.signature.timestamp.Dated

instance : DecidablePred Dated
  | .offer m => inferInstanceAs (Decidable m.Dated)
  | .acceptance m => inferInstanceAs (Decidable m.signature.timestamp.Dated)
  | .rejection m => inferInstanceAs (Decidable m.signature.timestamp.Dated)

theorem kept_of_mem_members {m : Message} {entry : String × Json} (mem : entry ∈ m.members) :
    entry.1 ≠ "type" ∧ Foreseen maxDepth entry.2 := by
  revert entry
  have digest (h : Digest) : Foreseen maxDepth h.toJson := h.foreseen_toJson _
  have signed (s : Signature) : Foreseen maxDepth s.toJson := s.foreseen_toJson _
  have word (n : UInt64) : Foreseen maxDepth (wordToJson n) := foreseen_wordToJson _ n
  have instant (t : Instant) : Foreseen maxDepth t.toJson := foreseen_text _ _
  have contracts (cs : List Contract) : Foreseen maxDepth (.array (cs.map Contract.toJson)) := by
    refine foreseen_array fun v mem => ?_
    obtain ⟨c, -, rfl⟩ := List.mem_map.1 mem
    exact c.foreseen_toJson _
  cases m <;>
    simp [members, Offer.members, Acceptance.members, Rejection.members, digest, signed, word,
      instant, contracts]

theorem splitTag_members (kind : Option MessageKind) {members : List (String × Json)}
    (kept : ∀ entry ∈ members, entry.1 ≠ "type" ∧ Foreseen maxDepth entry.2) :
    splitTag kind (memberReadings false members) = .ok (kind, memberReadings true members) := by
  induction members with
  | nil => rfl
  | cons entry rest ih =>
    obtain ⟨⟨other, foreseen⟩, others⟩ := List.forall_mem_cons.1 kept
    have ahead : readAhead (entry.2.reading false) = .ok (entry.2.reading true) := by
      rw [readAhead, foreseen]
    rw [memberReadings, splitTag, if_neg other, ahead]
    change (splitTag kind (memberReadings false rest) >>= fun found =>
      Except.ok (found.1, (some entry.1, entry.2.reading true) :: found.2)) = _
    rw [ih others]
    rfl

theorem decodeAs_members (m : Message) :
    decodeAs m.kind ((Json.object m.members).reading true) =
      if m.Dated then .ok m.carried else .error .malformed := by
  cases m with
  | offer m => exact (congrArg (Except.map offer) m.decode_members).trans map_if
  | acceptance m => exact (congrArg (Except.map acceptance) m.decode_members).trans map_if
  | rejection m => exact (congrArg (Except.map rejection) m.decode_members).trans map_if

theorem decode_tagged (kind : MessageKind) {members : List (String × Json)}
    (kept : ∀ entry ∈ members, entry.1 ≠ "type" ∧ Foreseen maxDepth entry.2)
    (some_members : members.isEmpty = false) :
    decode ((Json.object (("type", .text kind.name) :: members)).reading false) =
      decodeAs kind ((Json.object members).reading true) := by
  have tag : MessageKind.decodeTag (.text kind.name) = .ok kind := by
    cases kind <;> rfl
  have split_read : splitTag none (memberReadings false (("type", .text kind.name) :: members)) =
      .ok (some kind, memberReadings true members) := by
    rw [memberReadings, splitTag, if_pos rfl, reading, tag]
    exact splitTag_members _ kept
  rw [reading, Bool.false_and, if_neg (by decide), decode, split_read, reading, some_members]
  rfl

theorem decode_toJson (m : Message) :
    decode (m.toJson.reading false) = if m.Dated then .ok m.carried else .error .malformed := by
  have some_members : m.members.isEmpty = false := by
    cases m <;> rfl
  rw [toJson, decode_tagged m.kind (fun _ mem => kept_of_mem_members mem) some_members,
    decodeAs_members]

end Message

theorem decodeText_text (s : String) : decodeText ((Json.text s).reading b) = .ok s := by
  rw [reading]
  rfl

theorem RequestedContract.decode_toJson (c : RequestedContract) :
    decode (c.toJson.reading b) = .ok c := by
  rw [decode, toJson, record_object, putMembers_ok rfl rfl (decodeText_text _),
    putMembers_ok rfl rfl (Arguments.decode_toJson _)]
  rfl

theorem optional_decodeWord (id : Option NegotiationId) :
    optional decodeWord (((id.map wordToJson).getD .null).reading b) = .ok id := by
  cases id with
  | none =>
    rw [Option.map_none, Option.getD_none, reading]
    rfl
  | some id =>
    have present : optional decodeWord ((wordToJson id).reading b) =
        (decodeWord ((wordToJson id).reading b)).map some := rfl
    rw [Option.map_some, Option.getD_some, present, decodeWord_wordToJson]
    rfl

namespace OfferRequest

def carried (r : OfferRequest) : OfferRequest :=
  { r with validAfter := r.validAfter.carried, validUntil := r.validUntil.carried }

def Dated (r : OfferRequest) : Prop :=
  r.validAfter.Dated ∧ r.validUntil.Dated

instance : DecidablePred Dated := fun _ => inferInstanceAs (Decidable (_ ∧ _))

theorem decode_toJson (r : OfferRequest) :
    decode (r.toJson.reading b) = if r.Dated then .ok r.carried else .error .malformed := by
  rw [decode, toJson, record_object, putMembers_ok rfl rfl (optional_decodeWord _),
    putMembers_ok rfl rfl (decodeText_text _), putMembers_ok rfl rfl (decodeText_text _),
    putMembers_if rfl rfl (Instant.decode_toJson _), putMembers_if rfl rfl (Instant.decode_toJson _),
    putMembers_ok rfl rfl (decodeList_map fun _ => RequestedContract.decode_toJson _)]
  rw [← ite_and, bind_if]
  exact if_congr Iff.rfl rfl rfl

end OfferRequest

namespace Certificate

def carried (c : Certificate) : Certificate :=
  { c with notBefore := c.notBefore.carried, notAfter := c.notAfter.carried }

def Dated (c : Certificate) : Prop :=
  c.notBefore.Dated ∧ c.notAfter.Dated

instance : DecidablePred Dated := fun _ => inferInstanceAs (Decidable (_ ∧ _))

theorem decode_toJson (c : Certificate) :
    decode (c.toJson.reading b) = if c.Dated then .ok c.carried else .error .malformed := by
  rw [decode, toJson, record_object, putMembers_ok rfl rfl (decodeText_text _),
    putMembers_if rfl rfl (Instant.decode_toJson _), putMembers_if rfl rfl (Instant.decode_toJson _),
    putMembers_ok rfl rfl (PublicKey.decode_toJson _)]
  rw [← ite_and, bind_if]
  exact if_congr Iff.rfl rfl rfl

end Certificate

theorem Message.canonicalBytes_carried (m : Message) :
    m.carried.canonicalBytes = m.canonicalBytes := by
  rw [canonicalBytes_inj]
  cases m <;> simp [carried, Signature.carried]

theorem Message.signingBytes_carried (m : Message) :
    m.carried.signingBytes = m.signingBytes := by
  rw [signingBytes, ← carried_withSum, canonicalBytes_carried, signingBytes]

theorem Certificate.canonicalBytes_carried (c : Certificate) :
    c.carried.canonicalBytes = c.canonicalBytes := by
  simp only [canonicalBytes, toJson, carried, Instant.toJson, Instant.text_carried]

/-- Whatever is sent, with years of four digits, is read by the other side as what was sent, with its
instants cut to the millisecond and a leap second that does not end its minute taken for the second after
it. What identifies it, what was signed of it and every digest of it are the same. -/
theorem wire_round_trip :
    (∀ m : Message, m.Dated →
      Json.decode Message.decode m.toJson.compact = .ok m.carried ∧
        m.carried.canonicalBytes = m.canonicalBytes ∧
        m.carried.signingBytes = m.signingBytes ∧
        ∀ a, Digest.of a m.carried.canonicalBytes = Digest.of a m.canonicalBytes) ∧
    (∀ m : Offer, m.Dated →
      Json.decode Offer.decode (Json.object m.members).compact = .ok m.carried ∧
        (Message.offer m.carried).canonicalBytes = (Message.offer m).canonicalBytes ∧
        (Message.offer m.carried).signingBytes = (Message.offer m).signingBytes) ∧
    (∀ m : Acceptance, m.signature.timestamp.Dated →
      Json.decode Acceptance.decode (Json.object m.members).compact = .ok m.carried ∧
        (Message.acceptance m.carried).canonicalBytes = (Message.acceptance m).canonicalBytes ∧
        (Message.acceptance m.carried).signingBytes = (Message.acceptance m).signingBytes) ∧
    (∀ m : Rejection, m.signature.timestamp.Dated →
      Json.decode Rejection.decode (Json.object m.members).compact = .ok m.carried ∧
        (Message.rejection m.carried).canonicalBytes = (Message.rejection m).canonicalBytes ∧
        (Message.rejection m.carried).signingBytes = (Message.rejection m).signingBytes) ∧
    (∀ r : OfferRequest, r.Dated →
      Json.decode OfferRequest.decode r.toJson.compact = .ok r.carried) ∧
    (∀ c : Certificate, c.Dated →
      Json.decode Certificate.decode c.toJson.compact = .ok c.carried ∧
        c.carried.canonicalBytes = c.canonicalBytes ∧
        ∀ a, c.carried.fingerprint a = c.fingerprint a) ∧
    (∀ s : Signature, s.timestamp.Dated →
      Json.decode Signature.decode s.toJson.compact = .ok s.carried) ∧
    ∀ h : Digest, Json.decode Digest.decode h.toJson.compact = .ok h := by
  simp only [decode_compact]
  refine ⟨fun m dated => ?_, fun m dated => ?_, fun m dated => ?_, fun m dated => ?_,
    fun r dated => ?_, fun c dated => ?_, fun s dated => ?_, fun h => h.decode_toJson⟩
  · rw [m.decode_toJson, if_pos dated, m.canonicalBytes_carried]
    exact ⟨rfl, rfl, m.signingBytes_carried, fun _ => rfl⟩
  · rw [m.decode_members, if_pos dated]
    exact ⟨rfl, (Message.offer m).canonicalBytes_carried, (Message.offer m).signingBytes_carried⟩
  · rw [m.decode_members, if_pos dated]
    exact ⟨rfl, (Message.acceptance m).canonicalBytes_carried,
      (Message.acceptance m).signingBytes_carried⟩
  · rw [m.decode_members, if_pos dated]
    exact ⟨rfl, (Message.rejection m).canonicalBytes_carried,
      (Message.rejection m).signingBytes_carried⟩
  · rw [r.decode_toJson, if_pos dated]
  · rw [c.decode_toJson, if_pos dated]
    refine ⟨rfl, c.canonicalBytes_carried, fun a => ?_⟩
    rw [Certificate.fingerprint, c.canonicalBytes_carried, Certificate.fingerprint]
  · rw [s.decode_toJson, if_pos dated]

namespace Sample

/-- 2016-12-31T23:59:60.123456789Z. -/
def leapSecond : Instant := ⟨1483228799, 1123456789, by decide⟩

def signature : Signature := ⟨leapSecond, .ed25519, some [1, 2, 3, 255]⟩

def quantities : Arguments := .ofList [("Quantity", "200\n"), ("ArticleNumber", "\"XYZ\"-123")]

def leapOffer : Offer :=
  ⟨18446744073709551615, digest 1, digest 2, leapSecond, leapSecond, [⟨digest 3, quantities⟩], signature⟩

def leapRequest : OfferRequest := ⟨none, "Buyer", "Seller", leapSecond, leapSecond, [⟨"Goods", quantities⟩]⟩

def leapCertificate : Certificate := ⟨"Buyer", leapSecond, leapSecond, ⟨.ed25519, [1, 2, 3]⟩⟩

def leapAcceptance : Acceptance := ⟨7, digest 1, digest 2, digest 3, signature⟩

def leapRejection : Rejection := ⟨7, digest 1, digest 2, digest 3, signature⟩

theorem leapSecond_dated : leapSecond.Dated := by decide

theorem leapSecond_round_trip :
    leapSecond.Dated ∧ leapSecond.carried = leapSecond.canonical ∧
    Json.decode Message.decode (Message.offer leapOffer).toJson.compact =
      .ok (Message.offer leapOffer).carried ∧
    Json.decode Offer.decode (Json.object leapOffer.members).compact = .ok leapOffer.carried ∧
    Json.decode Acceptance.decode (Json.object leapAcceptance.members).compact =
      .ok leapAcceptance.carried ∧
    Json.decode Rejection.decode (Json.object leapRejection.members).compact =
      .ok leapRejection.carried ∧
    Json.decode OfferRequest.decode leapRequest.toJson.compact = .ok leapRequest.carried ∧
    Json.decode Certificate.decode leapCertificate.toJson.compact = .ok leapCertificate.carried ∧
    Json.decode Signature.decode signature.toJson.compact = .ok signature.carried := by
  have offer_dated : leapOffer.Dated := ⟨leapSecond_dated, leapSecond_dated, leapSecond_dated⟩
  obtain ⟨message, offer, acceptance, rejection, request, certificate, signed, -⟩ := wire_round_trip
  have kept : leapSecond.carried = leapSecond.canonical := Instant.Regular.carried_eq (by decide)
  exact ⟨leapSecond_dated, kept, (message (.offer leapOffer) offer_dated).1,
    (offer leapOffer offer_dated).1, (acceptance leapAcceptance leapSecond_dated).1, (rejection leapRejection leapSecond_dated).1,
    request leapRequest ⟨leapSecond_dated, leapSecond_dated⟩,
    (certificate leapCertificate ⟨leapSecond_dated, leapSecond_dated⟩).1,
    signed signature leapSecond_dated⟩

def askedFrom (t : Instant) : OfferRequest :=
  ⟨none, "Buyer", "Seller", t, justAfter, [⟨"Goods", quantities⟩]⟩

theorem strayLeap_not_read :
    (askedFrom strayLeap).Dated ∧
    Json.decode OfferRequest.decode (askedFrom strayLeap).toJson.compact =
      .ok (askedFrom afterLeap) ∧
    (askedFrom afterLeap).validAfter ≠ (askedFrom strayLeap).validAfter.canonical ∧
    (askedFrom strayLeap).validAfter ≤ (askedFrom strayLeap).validUntil ∧
    ¬ (askedFrom afterLeap).validAfter ≤ (askedFrom afterLeap).validUntil := by
  have dated : (askedFrom strayLeap).Dated := by decide
  have carried_eq : (askedFrom strayLeap).carried = askedFrom afterLeap := by decide
  refine ⟨dated, ?_, by decide, by decide, by decide⟩
  rw [decode_compact, OfferRequest.decode_toJson, if_pos dated, carried_eq]

end Sample

end Parley
