import Parley.Proofs.Decoded
import Parley.Proofs.Proxy.Ending
import Parley.Proofs.World.Agreement

namespace Parley

open Json

theorem Negotiation.offer_of_prepareOffer {n n' : Negotiation} {ctx : UpdateContext} {a : Party}
    {validAfter validUntil : Instant} {contracts : List Contract} {prepared : Prepared}
    (ready : n.prepareOffer ctx a validAfter validUntil contracts = (.ok prepared, n')) :
    ∃ o : Offer, prepared.message = .offer o ∧
      (o.Dated ↔ (validAfter.Dated ∧ validUntil.Dated) ∧ ctx.now.Dated) ∧
      (validAfter.Regular → validUntil.Regular → ctx.now.Regular → (Message.offer o).Precise) := by
  have asked : n.prepareFor ctx a (.offer validAfter validUntil contracts) = (.ok prepared, n') := ready
  have precise := precise_of_prepareFor asked
  rw [prepareOffer] at ready
  obtain ⟨key, m, -, drafted, signed⟩ := draft_of_prepare ready
  simp only [bind_eq_ok_iff] at drafted
  obtain ⟨_, -, _, -, drafted⟩ := drafted
  cases drafted
  rw [signed] at precise
  exact ⟨_, signed, and_assoc.symm, fun after before clock => precise ⟨after, before⟩ clock⟩

namespace Proxy

variable {p : Proxy} {relay : Relay} {h : Handle} {n : Negotiation} {e : Envelope}
  {checked now : Instant} {r : OfferRequest}

theorem prepared_of_transmit {prepare : Negotiation → Except Error Prepared × Negotiation}
    (sent : e ∈ (p.transmit relay h n prepare).sent) :
    ∃ prepared n', prepare n = (.ok prepared, n') ∧ e.message = prepared.message := by
  unfold transmit at sent
  split at sent
  · cases sent
  next prepared n' ready =>
    refine ⟨prepared, n', ready, ?_⟩
    split at sent
    · cases sent
    · split at sent
      · rw [List.mem_singleton.1 sent]
      · dsimp only at sent
        rw [settle_eq.2.2] at sent
        rw [List.mem_singleton.1 sent]

theorem offer_of_makeOffer (sent : e ∈ (p.makeOffer relay checked now r).sent) :
    ∃ o : Offer, e.message = .offer o ∧ (o.Dated ↔ r.Dated ∧ now.Dated) ∧
      (r.validAfter.Regular → r.validUntil.Regular → now.Regular → e.message.Precise) := by
  obtain ⟨p', h, n, a, contracts, sent⟩ : ∃ p' h n a contracts, e ∈ (transmit p' relay h n fun n =>
      n.prepareOffer (p.context now) a r.validAfter r.validUntil contracts).sent := by
    cases p.proposes checked now r with
    | declined _ same =>
      rw [same] at sent
      cases sent
    | exhausted _ same =>
      rw [same] at sent
      cases sent
    | known _ _ _ same =>
      rw [same] at sent
      exact ⟨_, _, _, _, _, sent⟩
    | opened _ _ _ _ same =>
      rw [same, Outcome.sent_map, Outcome.sent_ifFailed] at sent
      exact ⟨_, _, _, _, _, sent⟩
  obtain ⟨prepared, n', ready, same⟩ := prepared_of_transmit sent
  obtain ⟨o, message_eq, dated, precise⟩ := Negotiation.offer_of_prepareOffer ready
  rw [same, message_eq]
  exact ⟨o, rfl, dated, precise⟩

end Proxy

/-- Whatever was decoded is read again from its own text, as the same value, if its years have four
digits and no sign; so is the offer a proxy sends for a decoded request, if it is signed in such a
year. The text of any other value is refused. -/
theorem decoded_resends (text : String) :
    (∀ m, Json.decode Message.decode text = .ok m →
      Json.decode Message.decode m.toJson.compact =
        if m.Dated then .ok m else .error .malformed) ∧
    (∀ c, Json.decode Certificate.decode text = .ok c →
      Json.decode Certificate.decode c.toJson.compact =
        if c.Dated then .ok c else .error .malformed) ∧
    ∀ r, Json.decode OfferRequest.decode text = .ok r →
      (Json.decode OfferRequest.decode r.toJson.compact =
        if r.Dated then .ok r else .error .malformed) ∧
      ∀ (p : Proxy) (relay : Relay) (checked now : Instant),
        ∀ e ∈ (p.makeOffer relay checked now r).sent,
          Json.decode Message.decode e.message.toJson.compact =
            (if r.Dated ∧ now.Dated then .ok e.message.carried else .error .malformed) ∧
          (now.Regular → e.message.carried = e.message) := by
  simp only [decode_compact]
  refine ⟨fun m decoded => ?_, fun c decoded => ?_, fun r decoded => ⟨?_, ?_⟩⟩
  · obtain ⟨v, read⟩ := decode_eq_ok decoded
    rw [m.decode_toJson, Message.precise_of_decode read]
  · obtain ⟨v, read⟩ := decode_eq_ok decoded
    rw [c.decode_toJson, Certificate.carried_of_decode read]
  · obtain ⟨v, read⟩ := decode_eq_ok decoded
    rw [r.decode_toJson, OfferRequest.carried_of_decode read]
  · intro p relay checked now e sent
    obtain ⟨v, read⟩ := decode_eq_ok decoded
    have whole := OfferRequest.carried_of_decode read
    have after : r.validAfter.carried = r.validAfter := congrArg OfferRequest.validAfter whole
    have before : r.validUntil.carried = r.validUntil := congrArg OfferRequest.validUntil whole
    obtain ⟨o, message_eq, dated, precise⟩ := Proxy.offer_of_makeOffer sent
    refine ⟨?_, precise (Instant.carried_eq_self_iff.1 after).1 (Instant.carried_eq_self_iff.1 before).1⟩
    rw [message_eq, Message.decode_toJson]
    exact if_congr dated rfl rfl

namespace Sample

theorem opening_resends :
    Json.decode OfferRequest.decode opening.toJson.compact = .ok opening ∧
      Json.decode Message.decode (offer 7).message.toJson.compact = .ok (offer 7).message := by
  have dated : opening.Dated ∧ now.Dated := by decide
  have decoded : Json.decode OfferRequest.decode opening.toJson.compact = .ok opening := by
    rw [decode_compact, OfferRequest.decode_toJson, if_pos dated.1]
    rfl
  obtain ⟨-, -, requests⟩ := decoded_resends opening.toJson.compact
  have again := (requests opening decoded).2 (sellerProxy 7) relay now now
    ⟨(counter "Buyer" buyerSeed).name, (offer 7).message⟩ (opening_sent 7 ▸ List.mem_singleton_self _)
  have regular : now.Regular := by decide
  exact ⟨decoded, again.1.trans ((if_pos dated).trans (congrArg Except.ok (again.2 regular)))⟩

def edgeTime : Json := .text "0000-01-01T00:00:00+01:00"

def edge : Instant := ⟨-62167222800, 0, now.nanoseconds_lt⟩

theorem decode_edgeTime : Instant.decode (edgeTime.reading b) = .ok edge := by
  rw [edgeTime, reading]
  rfl

def edgeSignature : Json := .object [("timestamp", edgeTime), ("scheme", SignatureScheme.ed25519.toJson)]

theorem decode_edgeSignature :
    Signature.decode (edgeSignature.reading b) = .ok ⟨edge, .ed25519, none⟩ := by
  rw [Signature.decode, edgeSignature, record_object, putMembers_ok rfl rfl decode_edgeTime,
    putMembers_ok rfl rfl (SignatureScheme.decode_toJson .ed25519)]
  rfl

def edgeRejection : Rejection := ⟨7, digest 1, digest 2, digest 3, ⟨edge, .ed25519, none⟩⟩

def edgeMembers : List (String × Json) :=
  [("negotiationId", wordToJson 7), ("rejectorFingerprint", (digest 1).toJson),
    ("offerorFingerprint", (digest 2).toJson), ("offerHash", (digest 3).toJson),
    ("signature", edgeSignature)]

def edgeText : String := (Json.object (("type", .text "rejection") :: edgeMembers)).compact

theorem decode_edgeText : Json.decode Message.decode edgeText = .ok (.rejection edgeRejection) := by
  have kept : ∀ entry ∈ edgeMembers, entry.1 ≠ "type" ∧ Foreseen Message.maxDepth entry.2 := by
    have digest (h : Digest) : Foreseen Message.maxDepth h.toJson := h.foreseen_toJson _
    have signed : Foreseen Message.maxDepth edgeSignature := by
      refine foreseen_object ?_
      simp only [List.forall_mem_cons, List.not_mem_nil, false_implies, implies_true, and_true]
      exact ⟨foreseen_text _ _, foreseen_text _ _⟩
    simp [edgeMembers, digest, signed, foreseen_wordToJson]
  have closing : Rejection.decode ((Json.object edgeMembers).reading true) = .ok edgeRejection :=
    decodeClosing_members (p := True) (.inr rfl) decode_edgeSignature 7 (digest 1) (digest 2)
      (digest 3) Rejection.mk
  rw [edgeText, decode_compact]
  refine (Message.decode_tagged .rejection kept rfl).trans ?_
  rw [Message.decodeAs, closing]
  rfl

theorem edge_not_resent :
    Json.decode Message.decode edgeText = .ok (.rejection edgeRejection) ∧
      Json.decode Message.decode (Message.rejection edgeRejection).toJson.compact =
        .error .malformed := by
  have undated : ¬ (Message.rejection edgeRejection).Dated := by
    change ¬ edge.Dated
    decide
  rw [decode_compact, Message.decode_toJson, if_neg undated]
  exact ⟨decode_edgeText, rfl⟩

end Sample

end Parley
