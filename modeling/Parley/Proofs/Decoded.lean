import Parley.Proofs.Bank
import Parley.Proofs.Wire

namespace Parley

open Json

namespace Json

variable {σ α β : Type} {fields : List (RecordField σ)} {start s s' : σ} {build : σ → Decoded β}
  {P : σ → Prop} {v : Reading} {a : α} {b : β}

theorem decode_eq_ok {decoder : Reading → Decoded α} {text : String}
    (decoded : decode decoder text = .ok a) : ∃ v, decoder v = .ok a := by
  unfold decode at decoded
  generalize read text = found at decoded
  obtain ⟨v, ended⟩ := found
  obtain ⟨a', decoded, same⟩ := bind_eq_ok_iff.1 decoded
  cases ended with
  | true => cases same; exact ⟨v, decoded⟩
  | false => cases same

theorem required_eq_ok {name : String} {o : Option α} (there : required name o = .ok a) :
    o = some a := by
  cases o with
  | none => cases there
  | some a => cases there; rfl

def RecordField.Keeps (P : σ → Prop) (field : RecordField σ) : Prop :=
  ∀ v s s', P s → field.put v s = .ok s' → P s'

theorem RecordField.Keeps.slot {name : String} {get : σ → Option α} {set : α → σ → σ}
    {decode : Reading → Decoded α} (keeps : ∀ v a s, decode v = .ok a → P s → P (set a s)) :
    (RecordField.slot name get set decode).Keeps P := by
  intro v s s' holds put
  change (decode v).map (set · s) = .ok s' at put
  cases read : decode v with
  | error e => rw [read] at put; cases put
  | ok a =>
    rw [read] at put
    cases put
    exact keeps v a s read holds

theorem putMembers_keeps (keeps : ∀ field ∈ fields, field.Keeps P)
    {members : List (Option String × Reading)} (holds : P s)
    (put : putMembers fields members s = .ok s') : P s' := by
  induction members generalizing s with
  | nil => cases put; exact holds
  | cons entry rest ih =>
    obtain ⟨key, v⟩ := entry
    cases key with
    | none => cases put
    | some key =>
      rw [putMembers] at put
      split at put
      · exact ih holds put
      next field found =>
        split at put
        · cases put
        · obtain ⟨s₁, step, more⟩ := bind_eq_ok_iff.1 put
          exact ih (keeps field (List.mem_of_find?_eq_some found) v s s₁ holds step) more

theorem putItems_keeps (keeps : ∀ field ∈ fields, field.Keeps P) {items : List Reading} (holds : P s)
    (put : putItems fields items s = .ok s') : P s' := by
  induction items generalizing fields s with
  | nil =>
    cases fields <;> (cases put; exact holds)
  | cons v rest ih =>
    cases fields with
    | nil => cases put
    | cons field fields =>
      obtain ⟨s₁, step, more⟩ := bind_eq_ok_iff.1 put
      obtain ⟨first, others⟩ := List.forall_mem_cons.1 keeps
      exact ih others (first v s s₁ holds step) more

/-- What every field keeps holds of what a record is made of, however it is written. -/
theorem record_keeps (starts : P start) (keeps : ∀ field ∈ fields, field.Keeps P)
    (read : record fields start build v = .ok b) : ∃ s, P s ∧ build s = .ok b := by
  cases v with
  | object members closed =>
    obtain ⟨s, put, built⟩ := bind_eq_ok_iff.1 read
    split at built
    · exact ⟨s, putMembers_keeps keeps starts put, built⟩
    · cases built
  | array items closed =>
    obtain ⟨s, put, built⟩ := bind_eq_ok_iff.1 read
    split at built
    · refine ⟨s, putItems_keeps keeps starts put, ?_⟩
      split at built
      · cases built
      · exact built
    · cases built
  | hollow => exact ⟨start, starts, read⟩
  | _ => cases read

end Json

theorem Instant.carried_of_decode {v : Reading} {t : Instant} (read : decode v = .ok t) :
    t.carried = t := by
  unfold decode at read
  obtain ⟨s, -, read⟩ := bind_eq_ok_iff.1 read
  split at read
  next found =>
    cases read
    have regular := regular_canonical.2 (regular_of_read? found)
    rw [regular.carried_eq, canonical_canonical]
  · cases read

namespace Signature

def Slots.Precise (slots : Slots) : Prop :=
  ∀ t ∈ slots.timestamp, t.carried = t

theorem fields_precise : ∀ field ∈ fields, field.Keeps Slots.Precise := by
  simp only [fields, List.forall_mem_cons, List.not_mem_nil, false_implies, implies_true, and_true]
  refine ⟨.slot fun v t slots read _ => ?_, .slot fun _ _ _ _ precise => precise,
    .slot fun _ _ _ _ precise => precise⟩
  rintro _ ⟨⟩
  exact Instant.carried_of_decode read

theorem carried_of_decode {v : Reading} {s : Signature} (read : decode v = .ok s) :
    s.carried = s := by
  obtain ⟨slots, precise, built⟩ := record_keeps (P := Slots.Precise) (by rintro _ ⟨⟩) fields_precise
    read
  obtain ⟨timestamp, there, built⟩ := bind_eq_ok_iff.1 built
  obtain ⟨scheme, -, built⟩ := bind_eq_ok_iff.1 built
  cases built
  rw [carried, precise timestamp (required_eq_ok there)]

end Signature

namespace Offer

structure Slots.Precise (slots : Slots) : Prop where
  validAfter : ∀ t ∈ slots.validAfter, t.carried = t
  validUntil : ∀ t ∈ slots.validUntil, t.carried = t
  signature : ∀ s ∈ slots.signature, s.carried = s

theorem fields_precise : ∀ field ∈ fields, field.Keeps Slots.Precise := by
  simp only [fields, List.forall_mem_cons, List.not_mem_nil, false_implies, implies_true, and_true]
  refine ⟨.slot fun _ _ _ _ ⟨after, before, signed⟩ => ⟨after, before, signed⟩,
    .slot fun _ _ _ _ ⟨after, before, signed⟩ => ⟨after, before, signed⟩,
    .slot fun _ _ _ _ ⟨after, before, signed⟩ => ⟨after, before, signed⟩,
    .slot fun v t slots read ⟨_, before, signed⟩ => ⟨?_, before, signed⟩,
    .slot fun v t slots read ⟨after, _, signed⟩ => ⟨after, ?_, signed⟩,
    .slot fun _ _ _ _ ⟨after, before, signed⟩ => ⟨after, before, signed⟩,
    .slot fun v s slots read ⟨after, before, _⟩ => ⟨after, before, ?_⟩⟩
  · rintro _ ⟨⟩
    exact Instant.carried_of_decode read
  · rintro _ ⟨⟩
    exact Instant.carried_of_decode read
  · rintro _ ⟨⟩
    exact Signature.carried_of_decode read

theorem carried_of_decode {v : Reading} {m : Offer} (read : decode v = .ok m) :
    m.carried = m := by
  obtain ⟨slots, precise, built⟩ := record_keeps (P := Slots.Precise)
    ⟨by rintro _ ⟨⟩, by rintro _ ⟨⟩, by rintro _ ⟨⟩⟩ fields_precise read
  simp only [bind_eq_ok_iff] at built
  obtain ⟨id, -, offeror, -, receiver, -, validAfter, after, validUntil, before, contracts, -,
    signature, signed, same⟩ := built
  cases same
  rw [carried, precise.validAfter validAfter (required_eq_ok after),
    precise.validUntil validUntil (required_eq_ok before),
    precise.signature signature (required_eq_ok signed)]

end Offer

def ClosingSlots.Precise (slots : ClosingSlots) : Prop :=
  ∀ s ∈ slots.signature, s.carried = s

theorem closingFields_precise (sender : String) :
    ∀ field ∈ closingFields sender, field.Keeps ClosingSlots.Precise := by
  simp only [closingFields, List.forall_mem_cons, List.not_mem_nil, false_implies, implies_true,
    and_true]
  refine ⟨.slot fun _ _ _ _ precise => precise, .slot fun _ _ _ _ precise => precise,
    .slot fun _ _ _ _ precise => precise, .slot fun _ _ _ _ precise => precise,
    .slot fun v s slots read _ => ?_⟩
  rintro _ ⟨⟩
  exact Signature.carried_of_decode read

theorem decodeClosing_eq_ok {α : Type} {sender : String} {v : Reading} {a : α}
    {make : NegotiationId → Digest → Digest → Digest → Signature → α}
    (read : decodeClosing sender make v = .ok a) :
    ∃ id who offeror offerHash s, a = make id who offeror offerHash s ∧ s.carried = s := by
  obtain ⟨slots, precise, built⟩ := record_keeps (P := ClosingSlots.Precise) (by rintro _ ⟨⟩)
    (closingFields_precise sender) read
  simp only [bind_eq_ok_iff] at built
  obtain ⟨id, -, who, -, offeror, -, offerHash, -, s, signed, same⟩ := built
  cases same
  exact ⟨id, who, offeror, offerHash, s, rfl, precise s (required_eq_ok signed)⟩

theorem Acceptance.carried_of_decode {v : Reading} {m : Acceptance} (read : decode v = .ok m) :
    m.carried = m := by
  obtain ⟨id, who, offeror, offerHash, s, rfl, precise⟩ := decodeClosing_eq_ok read
  exact congrArg (Acceptance.mk id who offeror offerHash) precise

theorem Rejection.carried_of_decode {v : Reading} {m : Rejection} (read : decode v = .ok m) :
    m.carried = m := by
  obtain ⟨id, who, offeror, offerHash, s, rfl, precise⟩ := decodeClosing_eq_ok read
  exact congrArg (Rejection.mk id who offeror offerHash) precise

namespace Message

theorem precise_of_decodeAs {kind : MessageKind} {v : Reading} {m : Message}
    (read : decodeAs kind v = .ok m) : m.Precise := by
  cases kind with
  | offer =>
    obtain ⟨o, decoded, rfl⟩ := Bank.map_eq_ok_iff.1 read
    exact congrArg offer (Offer.carried_of_decode decoded)
  | acceptance =>
    obtain ⟨o, decoded, rfl⟩ := Bank.map_eq_ok_iff.1 read
    exact congrArg acceptance (Acceptance.carried_of_decode decoded)
  | rejection =>
    obtain ⟨o, decoded, rfl⟩ := Bank.map_eq_ok_iff.1 read
    exact congrArg rejection (Rejection.carried_of_decode decoded)

theorem precise_of_decode {v : Reading} {m : Message} (read : decode v = .ok m) : m.Precise := by
  cases v with
  | object members closed =>
    obtain ⟨⟨kind, members⟩, -, read⟩ := bind_eq_ok_iff.1 read
    cases closed with
    | true =>
      obtain ⟨kind, -, read⟩ := bind_eq_ok_iff.1 read
      exact precise_of_decodeAs read
    | false => cases read
  | array items closed =>
    cases items with
    | nil => cases read
    | cons tag items =>
      obtain ⟨kind, -, read⟩ := bind_eq_ok_iff.1 read
      obtain ⟨items, -, read⟩ := bind_eq_ok_iff.1 read
      cases closed with
      | true => exact precise_of_decodeAs read
      | false => cases read
  | _ => cases read

end Message

namespace OfferRequest

structure Slots.Precise (slots : Slots) : Prop where
  validAfter : ∀ t ∈ slots.validAfter, t.carried = t
  validUntil : ∀ t ∈ slots.validUntil, t.carried = t

theorem fields_precise : ∀ field ∈ fields, field.Keeps Slots.Precise := by
  simp only [fields, List.forall_mem_cons, List.not_mem_nil, false_implies, implies_true, and_true]
  refine ⟨.slot fun _ _ _ _ ⟨after, before⟩ => ⟨after, before⟩,
    .slot fun _ _ _ _ ⟨after, before⟩ => ⟨after, before⟩,
    .slot fun _ _ _ _ ⟨after, before⟩ => ⟨after, before⟩,
    .slot fun v t slots read ⟨_, before⟩ => ⟨?_, before⟩,
    .slot fun v t slots read ⟨after, _⟩ => ⟨after, ?_⟩,
    .slot fun _ _ _ _ ⟨after, before⟩ => ⟨after, before⟩⟩
  · rintro _ ⟨⟩
    exact Instant.carried_of_decode read
  · rintro _ ⟨⟩
    exact Instant.carried_of_decode read

theorem carried_of_decode {v : Reading} {r : OfferRequest} (read : decode v = .ok r) :
    r.carried = r := by
  obtain ⟨slots, precise, built⟩ := record_keeps (P := Slots.Precise)
    ⟨by rintro _ ⟨⟩, by rintro _ ⟨⟩⟩ fields_precise read
  simp only [bind_eq_ok_iff] at built
  obtain ⟨offeror, -, receiver, -, validAfter, after, validUntil, before, contracts, -, same⟩ := built
  cases same
  rw [carried, precise.validAfter validAfter (required_eq_ok after),
    precise.validUntil validUntil (required_eq_ok before)]

end OfferRequest

namespace Certificate

structure Slots.Precise (slots : Slots) : Prop where
  notBefore : ∀ t ∈ slots.notBefore, t.carried = t
  notAfter : ∀ t ∈ slots.notAfter, t.carried = t

theorem fields_precise : ∀ field ∈ fields, field.Keeps Slots.Precise := by
  simp only [fields, List.forall_mem_cons, List.not_mem_nil, false_implies, implies_true, and_true]
  refine ⟨.slot fun _ _ _ _ ⟨start, stop⟩ => ⟨start, stop⟩,
    .slot fun v t slots read ⟨_, stop⟩ => ⟨?_, stop⟩,
    .slot fun v t slots read ⟨start, _⟩ => ⟨start, ?_⟩,
    .slot fun _ _ _ _ ⟨start, stop⟩ => ⟨start, stop⟩⟩
  · rintro _ ⟨⟩
    exact Instant.carried_of_decode read
  · rintro _ ⟨⟩
    exact Instant.carried_of_decode read

theorem carried_of_decode {v : Reading} {c : Certificate} (read : decode v = .ok c) :
    c.carried = c := by
  obtain ⟨slots, precise, built⟩ := record_keeps (P := Slots.Precise)
    ⟨by rintro _ ⟨⟩, by rintro _ ⟨⟩⟩ fields_precise read
  simp only [bind_eq_ok_iff] at built
  obtain ⟨name, -, notBefore, start, notAfter, stop, key, -, same⟩ := built
  cases same
  rw [carried, precise.notBefore notBefore (required_eq_ok start),
    precise.notAfter notAfter (required_eq_ok stop)]

end Certificate

end Parley
