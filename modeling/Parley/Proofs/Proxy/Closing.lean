import Parley.Proofs.Negotiation.Mirror
import Parley.Proofs.Proxy.Run

namespace Parley

namespace Negotiation

variable {n : Negotiation} {ps : Parties} {s : Settings} {m : Message} {a b : Party}

def ClosedBy (ps : Parties) (s : Settings) (n : Negotiation) (m : Message) (h : Digest) : Prop :=
  ∃ last closer offeror, n.offers.getLast? = some last ∧
    s.accepts h.algorithm = true ∧ h.verifies (Message.offer last).canonicalBytes = true ∧
    ps.byFingerprint .any m.sender = .ok closer ∧
    ps.byFingerprint .any last.receiver = .ok closer ∧
    ps.byFingerprint .any m.receiver = .ok offeror ∧
    ps.byFingerprint .any last.offeror = .ok offeror ∧ closer.name ≠ offeror.name

def SignedBySender (ps : Parties) (m : Message) : Prop :=
  ∃ sender sum, ps.byFingerprint .any m.sender = .ok sender ∧ m.signature.sum = some sum ∧
    m.signature.scheme.verify sender.certificate.publicKey m.signingBytes sum = true

structure Binding (ps : Parties) (s : Settings) (n : Negotiation) : Prop where
  accepted : n.status = .accepted → n.offers ≠ [] ∧ n.rejection = none ∧
    ∃ m, n.acceptance = some m ∧ n.ClosedBy ps s (.acceptance m) m.offerHash
  rejected : n.status = .rejected → n.offers ≠ [] ∧ n.acceptance = none ∧
    ∃ m, n.rejection = some m ∧ n.ClosedBy ps s (.rejection m) m.offerHash
  signed : ∀ m ∈ n.messages, SignedBySender ps m

theorem Held.joins_mem (held : n.Held ps s) (joins : n.Joins a b) : a ∈ ps.directory.entries := by
  obtain ⟨rfl, rfl⟩ | ⟨rfl, rfl⟩ := joins
  · exact held.owned_mem
  · exact held.counter_mem

theorem Answers.closedBy {last : Offer} {h : Digest} (answers : n.Answers s m last h a b)
    (held : n.Held ps s) (sound : ps.Sound s) : n.ClosedBy ps s m h := by
  have closer_mem := held.joins_mem answers.joins
  have offeror_mem := held.joins_mem answers.joins.symm
  refine ⟨last, a, b, answers.last_eq, List.contains_iff_mem.2 answers.accepted, answers.verifies,
    ?_, ?_, ?_, ?_, (held.sides sound).names_ne answers.joins⟩
  · exact Proxy.byFingerprint_of_mem sound closer_mem answers.sender_mem rfl
  · exact Proxy.byFingerprint_of_mem sound closer_mem answers.addressed rfl
  · exact Proxy.byFingerprint_of_mem sound offeror_mem answers.receiver_mem rfl
  · exact Proxy.byFingerprint_of_mem sound offeror_mem answers.offered rfl

theorem Held.binding (held : n.Held ps s) (sound : ps.Sound s) : n.Binding ps s where
  accepted status := by
    obtain ⟨m, closing_eq⟩ := held.recorded.accepted status
    obtain ⟨last, h, a, b, answers⟩ := held.recorded.answered (.acceptance m) (by simp [closing_eq])
    obtain rfl := Option.some.inj answers.hash_eq
    obtain ⟨acceptance, rejection⟩ := closing_eq_acceptance_iff.1 closing_eq
    exact ⟨held.recorded.opened (by simp [status]), rejection, m, acceptance,
      answers.closedBy held sound⟩
  rejected status := by
    obtain ⟨m, closing_eq⟩ := held.recorded.rejected status
    obtain ⟨last, h, a, b, answers⟩ := held.recorded.answered (.rejection m) (by simp [closing_eq])
    obtain rfl := Option.some.inj answers.hash_eq
    obtain ⟨acceptance, rejection⟩ := closing_eq_rejection_iff.1 closing_eq
    exact ⟨held.recorded.opened (by simp [status]), acceptance, m, rejection,
      answers.closedBy held sound⟩
  signed m mem := by
    obtain ⟨-, a, b, joins, travels⟩ := held.recorded.signed m mem
    obtain ⟨-, sum, sum_eq, verified⟩ := Party.verify_eq_ok_iff.1 travels.verified
    exact ⟨a, sum, Proxy.byFingerprint_of_mem sound (held.joins_mem joins) travels.sender_mem rfl,
      sum_eq, verified⟩

end Negotiation

namespace Proxy

/-- Whatever a proxy was asked and given, its negotiations are binding. -/
theorem closing_binds {p : Proxy} (reached : p.Reached) :
    ∀ n ∈ p.register.negotiations, n.Binding p.parties p.settings := by
  intro n mem
  exact (reached.sound.register.holds n mem).binding reached.sound.parties

end Proxy

namespace Sample

open Negotiation

def parties : Parties :=
  ⟨⟨[owned "Buyer" buyerSeed, counter "Seller" sellerSeed]⟩, settings.accepted⟩

theorem parties_built : ∀ p ∈ [owned "Buyer" buyerSeed, counter "Seller" sellerSeed],
    p.Built settings := by
  intro p mem
  obtain rfl | mem := List.mem_cons.1 mem
  · exact (buying_sides 0).owned_built
  · rw [List.mem_singleton.1 mem]
    exact (buying_sides 0).counter_built

theorem parties_ofList : Parties.ofList
    [owned "Buyer" buyerSeed, counter "Seller" sellerSeed] settings = .ok parties :=
  Parties.ofList_of_apart (List.pairwise_pair.2 (apart _ _))
    (by simp [owned, counter, Party.ofCertificate, settings])

def proxy : Proxy := .start parties templates settings fun i => .ofNat i

theorem proxy_sound : proxy.Sound :=
  Proxy.sound_start (Parties.sound_ofList parties_built parties_ofList)

theorem proxy_reached (calls : List Call) : (proxy.run calls).Reached :=
  .run _ _ _ _ _ calls parties_built parties_ofList

def goods : RequestedContract := ⟨"Goods", .empty⟩

theorem goods_valid : checkTerms [goods] now yearEnd now = .ok () := by
  rw [checkTerms_eq_ok_iff]
  exact ⟨by simp, by decide, by decide⟩

theorem goods_fit {p : Proxy} (templates_eq : p.templates = templates) :
    [goods].mapM p.contractOf = .ok [contract] := by
  have found : templates.byName goods.templateName = .ok template := rfl
  have fits : template.validate goods.arguments = .ok () := rfl
  simp only [List.mapM_cons, List.mapM_nil, Proxy.contractOf, templates_eq, found, fits, bind,
    Except.bind, pure, Except.pure]
  rfl

def relay : Relay := ⟨fun _ _ => .ok (), fun _ _ => .ok []⟩

theorem online (m : Message) (p : Party) : relay.send m p = .ok () := rfl

theorem offerFrom_admits {name : String} {seed : List UInt8} (id : NegotiationId)
    (named : (Text.trim name).isEmpty = false)
    (apart : ∀ key key', Directory.Apart
      (Party.ofCertificate (certificate "Buyer" buyerSeed) key settings)
      (Party.ofCertificate (certificate name seed) key' settings)) :
    (start id (owned "Buyer" buyerSeed) (counter name seed)).Admits ⟨templates, settings, now⟩
      (counter name seed) (owned "Buyer" buyerSeed) (offerFrom name seed id).message := by
  have far : (start id (owned name seed) (counter "Buyer" buyerSeed)).Sides settings
      (owned name seed) (counter "Buyer" buyerSeed) :=
    start_sides id named (by decide) (symm (apart _ _))
  have prepares : (start id (owned name seed) (counter "Buyer" buyerSeed)).Prepares
      ⟨templates, settings, now⟩ (owned name seed) (counter "Buyer" buyerSeed) _ :=
    prepareFor_prepares far (.offer now yearEnd [contract])
  have mirrored : Mirrored settings (owned name seed) (counter "Buyer" buyerSeed) (counter name seed)
      (owned "Buyer" buyerSeed) (start id (owned name seed) (counter "Buyer" buyerSeed))
      (start id (owned "Buyer" buyerSeed) (counter name seed)) :=
    ⟨far, start_sides id (by decide) named (apart _ _), rfl, rfl, agrees_start id _ _ _ _⟩
  obtain ⟨admits, -, -⟩ := prepares.of_ok (prepare_offerFrom far)
  refine admits.mirror mirrored rfl rfl ?_ ?_
  · rintro _ ⟨⟩
  · rintro o ⟨⟩
    change ¬ yearEnd.canonical < now
    decide

theorem offer_admits (id : NegotiationId) : (buying id).Admits (proxy.context now)
    (buying id).second (buying id).first (offer id).message :=
  offerFrom_admits id (by decide) apart

theorem buying_held (id : NegotiationId) : (buying id).Held parties settings :=
  held_start (by simp [parties]) (by simp [parties]) rfl rfl

theorem offer_timely (id : NegotiationId) :
    checkTimestamp (proxy.context now) (offer id).message.signature.timestamp = .ok () := by
  rw [checkTimestamp_eq_ok_iff]
  change (now.canonical.apart now).nanoseconds ≤ settings.timestampTolerance.nanoseconds
  decide

theorem buying_stands (id : NegotiationId) : proxy.Stands (buying id) :=
  .inr ⟨Register.registered?_empty _ _, rfl⟩

def offered (id : NegotiationId) : Proxy := proxy.run [.message relay now (offer id).message]

theorem receive_offer (id : NegotiationId) :
    (proxy.receive relay now (offer id).message).proxy = offered id := by
  rw [offered, Proxy.run_cons, Proxy.run_nil, Proxy.perform_message]

theorem offer_commits (id : NegotiationId) : Proxy.Commits proxy (offered id) now
    (buying id) (buying id).second (buying id).first (offer id).message := by
  have commits := Proxy.receive_commits proxy_sound relay (buying_stands id) (buying_held id)
    (offer_admits id) (offer_timely id)
  rw [receive_offer] at commits
  exact commits

theorem offered_context (id : NegotiationId) :
    (offered id).context now = ⟨templates, settings, now⟩ :=
  (offer_commits id).basis.context_eq

def pending (id : NegotiationId) : Negotiation :=
  (buying id).apply (offer id).message (buying id).first

theorem offered_known (id : NegotiationId) :
    (offered id).register.registered? (pending id).key = some (pending id) := by
  have key_eq : (pending id).key = (buying id).key := key_apply
  rw [key_eq]
  exact (offer_commits id).differs.at_key

theorem pending_sides (id : NegotiationId) :
    (pending id).Sides settings (owned "Buyer" buyerSeed) (counter "Seller" sellerSeed) :=
  (buying_sides id).apply

theorem pending_turn (id : NegotiationId) (kind : MessageKind) :
    (pending id).checkTurn (owned "Buyer" buyerSeed) kind now = .ok () := by
  have lapsed : (pending id).hasLapsed now = false := by
    have running : ¬ yearEnd.canonical < now := by decide
    change decide (yearEnd.canonical < now) = false
    exact decide_eq_false running
  rw [checkTurn_eq_ok_iff]
  exact ⟨rfl, .inr ⟨rfl, lapsed, rfl⟩⟩

theorem buyer_name : (owned "Buyer" buyerSeed).name = "Buyer" := by
  change Text.trim "Buyer" = "Buyer"
  decide

theorem seller_name : (counter "Seller" sellerSeed).name = "Seller" := by
  change Text.trim "Seller" = "Seller"
  decide

theorem pending_last (id : NegotiationId) : ∃ last, (pending id).lastOffer? = some last :=
  ⟨_, rfl⟩

theorem acceptance_commits (id : NegotiationId) : ∃ x,
    Proxy.Commits (offered id) ((offered id).accept relay now ⟨id, "Buyer", "Seller"⟩).proxy
      now (pending id) (pending id).first (pending id).second (.acceptance x) := by
  obtain ⟨last, last_eq⟩ := pending_last id
  have sides : (pending id).Sides ((offered id).context now).settings (pending id).first
      (pending id).second := by
    rw [offered_context]
    exact pending_sides id
  have turn : (pending id).checkTurn (pending id).first .acceptance
      ((offered id).context now).now = .ok () := pending_turn id .acceptance
  obtain ⟨x, ready⟩ := prepareAcceptance_eq_ok sides.counterpartOf_eq sides.isOwned turn last_eq
  have prepares := prepareAcceptance_prepares sides
  obtain ⟨admits, -, -⟩ := prepares.of_ok (congrArg Prod.fst ready)
  refine ⟨x, ?_⟩
  have commits : Proxy.Commits (offered id) ((offered id).accept relay now
      ⟨(pending id).id, (pending id).first.name, (pending id).second.name⟩).proxy now (pending id)
        (pending id).first (pending id).second (.acceptance x) :=
    Proxy.close_commits (offer_commits id).sound (offered_known id) ready admits (online _ _)
  have first_name : (pending id).first.name = "Buyer" := buyer_name
  have second_name : (pending id).second.name = "Seller" := seller_name
  have same_id : (pending id).id = id := rfl
  rw [first_name, second_name, same_id] at commits
  exact commits

def sale (id : NegotiationId) : List Call :=
  [.message relay now (offer id).message, .order relay (.accept now ⟨id, "Buyer", "Seller"⟩)]

theorem run_sale (id : NegotiationId) :
    proxy.run (sale id) = ((offered id).accept relay now ⟨id, "Buyer", "Seller"⟩).proxy := by
  rw [sale, Proxy.run_cons, Proxy.run_cons, Proxy.run_nil, Proxy.perform_message,
    Proxy.perform_order, Proxy.carryOut_accept, receive_offer]

theorem sale_binding : ∃ n ∈ (proxy.run (sale 7)).register.negotiations,
    n.status = .accepted ∧
      n.Binding (proxy.run (sale 7)).parties (proxy.run (sale 7)).settings := by
  obtain ⟨x, commits⟩ := acceptance_commits 7
  have mem := Register.mem_of_registered? commits.differs.at_key
  rw [← run_sale] at mem
  have closed : ((pending 7).apply (.acceptance x) (pending 7).second).status = .accepted := rfl
  exact ⟨_, mem, closed, Proxy.closing_binds (proxy_reached (sale 7)) _ mem⟩

def sellerParties : Parties :=
  ⟨⟨[owned "Seller" sellerSeed, counter "Buyer" buyerSeed]⟩, settings.accepted⟩

theorem sellerParties_built : ∀ p ∈ [owned "Seller" sellerSeed, counter "Buyer" buyerSeed],
    p.Built settings := by
  intro p mem
  obtain rfl | mem := List.mem_cons.1 mem
  · exact (selling_sides 0).owned_built
  · rw [List.mem_singleton.1 mem]
    exact (selling_sides 0).counter_built

theorem sellerParties_ofList : Parties.ofList
    [owned "Seller" sellerSeed, counter "Buyer" buyerSeed] settings = .ok sellerParties :=
  Parties.ofList_of_apart (List.pairwise_pair.2 (symm (apart _ _)))
    (by simp [owned, counter, Party.ofCertificate, settings])

def sellerProxy (id : NegotiationId) : Proxy := .start sellerParties templates settings fun _ => id

theorem sellerProxy_sound (id : NegotiationId) : (sellerProxy id).Sound :=
  Proxy.sound_start (Parties.sound_ofList sellerParties_built sellerParties_ofList)

def opening : OfferRequest :=
  ⟨none, "Seller", "Buyer", now, yearEnd, [goods]⟩

theorem opening_ready (id : NegotiationId) :
    (selling id).prepareOffer ((sellerProxy id).context now) (owned "Seller" sellerSeed) now yearEnd
      [contract] = (.ok (offer id), selling id) ∧
    (selling id).Admits ((sellerProxy id).context now) (owned "Seller" sellerSeed)
      (counter "Buyer" buyerSeed) (offer id).message := by
  have prepares : (selling id).Prepares ⟨templates, settings, now⟩ (owned "Seller" sellerSeed)
      (counter "Buyer" buyerSeed) ((selling id).prepareFor ⟨templates, settings, now⟩
        (owned "Seller" sellerSeed) (.offer now yearEnd [contract])) :=
    prepareFor_prepares (selling_sides id) _
  obtain ⟨admits, same, -⟩ := prepares.of_ok (prepare_offer id)
  exact ⟨same, admits⟩

def begun (id : NegotiationId) : Proxy :=
  { sellerProxy id with register := ({ (sellerProxy id).register with drawn := 1 }.insert id
    (owned "Seller" sellerSeed) (counter "Buyer" buyerSeed)).2 }

def opens (id : NegotiationId) (n : Negotiation) : Except Error Prepared × Negotiation :=
  n.prepareOffer ((sellerProxy id).context now) (owned "Seller" sellerSeed) now yearEnd [contract]

theorem opening_eq (id : NegotiationId) : (sellerProxy id).makeOffer relay now now opening =
    (((begun id).transmit relay 0 (selling id) (opens id)).ifFailed (·.discard 0)).map
      fun _ => id := by
  have drew : (sellerProxy id).register.drawId
      (.of (owned "Seller" sellerSeed).name (counter "Buyer" buyerSeed).name)
        (sellerProxy id).register.attempts (sellerProxy id).register.drawn = (some id, 1) := rfl
  have seller_eq : opening.offerorName = (owned "Seller" sellerSeed).name := seller_name.symm
  have buyer_eq : opening.receiverName = (counter "Buyer" buyerSeed).name := buyer_name.symm
  have fit : opening.contracts.mapM (sellerProxy id).contractOf = .ok [contract] := goods_fit rfl
  have valid : opening.validate now = .ok () := goods_valid
  exact Proxy.makeOffer_eq_new (sellerProxy_sound id).parties List.mem_cons_self
    (List.mem_cons_of_mem _ List.mem_cons_self) rfl rfl drew rfl seller_eq buyer_eq valid fit

theorem begun_located (id : NegotiationId) :
    Proxy.Located (sellerProxy id) (begun id) 0 (selling id) :=
  Proxy.located_insert 1 (sellerProxy_sound id) List.mem_cons_self
    (List.mem_cons_of_mem _ List.mem_cons_self) rfl rfl (Register.registered?_empty _ _)

theorem opening_sent (id : NegotiationId) :
    ((sellerProxy id).makeOffer relay now now opening).sent =
      [⟨(counter "Buyer" buyerSeed).name, (offer id).message⟩] := by
  have ready : opens id (selling id) = (.ok ⟨(selling id).id, (selling id).offers.length,
      (selling id).status, (selling id).second, (offer id).message⟩, selling id) := (opening_ready id).1
  obtain ⟨-, sent, -⟩ := (begun_located id).transmit_eq (sellerProxy_sound id) ready
    (opening_ready id).2 (online _ _)
  rw [opening_eq, Outcome.sent_map, Outcome.sent_ifFailed]
  exact sent

end Sample

end Parley
