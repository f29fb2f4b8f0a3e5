import Parley.Proofs.Proxy.Reads
import Parley.Proofs.Proxy.Resend
import Parley.Proofs.Proxy.Resolution

namespace Parley

def OfferRequest.asSent (r : OfferRequest) (id : NegotiationId) : OfferRequest :=
  { r with id := some id, validAfter := r.validAfter.canonical, validUntil := r.validUntil.canonical }

namespace Templates

variable {ts : Templates} {s : Settings} {t : Template} {c : RequestedContract} {d : Contract}

def renderRequested (ts : Templates) (c : RequestedContract) : Except Error String := do
  let t ← ts.byName c.templateName
  t.render c.arguments

structure Restores (ts : Templates) (requested : List RequestedContract) (contracts : List Contract)
    (texts : List String) : Prop where
  shown : contracts.mapM (Negotiation.showContract ts) = .ok requested
  rendered : contracts.mapM ts.render = .ok texts

structure Within (ts us : Templates) : Prop where
  wellFormed : us.directory.WellFormed
  mem : ∀ t ∈ ts.directory.entries, t ∈ us.directory.entries

end Templates

namespace Outcome

theorem eq_of_ifFailed_eq_ok {α : Type} {o : Outcome α} {change : Proxy → Proxy} {result : α}
    (done : (o.ifFailed change).result = .ok result) : o.ifFailed change = o := by
  unfold ifFailed at done ⊢
  split
  next failed => simp [failed] at done
  next => rfl

end Outcome

namespace Proxy

variable {p : Proxy} {us : Templates} {c : RequestedContract} {d : Contract}
variable {requested : List RequestedContract} {contracts : List Contract}

theorem contractOf_eq_ok_iff : p.contractOf c = .ok d ↔
    ∃ t, p.templates.byName c.templateName = .ok t ∧ t.validate c.arguments = .ok () ∧
      d = ⟨t.preferredHash, c.arguments⟩ := by
  unfold contractOf
  simp only [bind_eq_ok_iff]
  constructor
  · rintro ⟨t, named, _, fits, ⟨⟩⟩
    exact ⟨t, named, fits, rfl⟩
  · rintro ⟨t, named, fits, rfl⟩
    exact ⟨t, named, (), fits, rfl⟩

theorem restores_contract (wf : p.templates.directory.WellFormed)
    (sound : p.templates.Sound p.settings) (made : p.contractOf c = .ok d) : ∃ text, p.templates.renderRequested c = .ok text ∧
      ∀ us, p.templates.Within us →
        Negotiation.showContract us d = .ok c ∧ us.render d = .ok text := by
  obtain ⟨t, named, fits, rfl⟩ := contractOf_eq_ok_iff.1 made
  obtain ⟨mem, name_eq⟩ := (Templates.byName_eq_ok_iff wf).1 named
  obtain ⟨text, rendered⟩ : ∃ text, t.render c.arguments = .ok text := by
    obtain ⟨name, text, defined⟩ := sound t mem
    exact ⟨_, Template.render_of_fits defined (Template.validate_eq_ok_iff.1 fits)⟩
  refine ⟨text, ?_, fun us within => ?_⟩
  · rw [Templates.renderRequested, named]
    exact rendered
  · have found := Templates.byHash_of_mem within.wellFormed (within.mem t mem)
      (sound t mem).preferredHash_mem
    constructor
    · simp only [Negotiation.showContract, found, name_eq]
    · rw [Templates.render, found]
      exact rendered

theorem restores_contracts (wf : p.templates.directory.WellFormed)
    (sound : p.templates.Sound p.settings) (made : requested.mapM p.contractOf = .ok contracts) :
    ∃ texts, requested.mapM p.templates.renderRequested = .ok texts ∧
      ∀ us, p.templates.Within us → us.Restores requested contracts texts := by
  have pairs := mapM_eq_ok_iff.1 made
  clear made
  induction pairs with
  | nil => exact ⟨[], rfl, fun us _ => ⟨rfl, rfl⟩⟩
  | cons first rest ih =>
    obtain ⟨text, worded, restores⟩ := restores_contract wf sound first
    obtain ⟨texts, wordeds, restoreds⟩ := ih
    refine ⟨text :: texts, ?_, fun us within => ?_⟩
    · exact mapM_eq_ok_iff.2 (.cons worded (mapM_eq_ok_iff.1 wordeds))
    · obtain ⟨shown, rendered⟩ := restores us within
      obtain ⟨showns, rendereds⟩ := restoreds us within
      exact ⟨mapM_eq_ok_iff.2 (.cons shown (mapM_eq_ok_iff.1 showns)),
        mapM_eq_ok_iff.2 (.cons rendered (mapM_eq_ok_iff.1 rendereds))⟩

/-- That a proxy shows an offer as it was asked for, whichever party is named first, and puts its
contracts in these words. -/
structure Shows (p : Proxy) (r : OfferRequest) (id : NegotiationId) (texts : List String) :
    Prop where
  request : p.lastRequest r.offerorName r.receiverName id = .ok (some (r.asSent id))
  request_swap : p.lastRequest r.receiverName r.offerorName id = .ok (some (r.asSent id))
  words : p.renderLastOffer r.offerorName r.receiverName id = .ok (some texts)
  words_swap : p.renderLastOffer r.receiverName r.offerorName id = .ok (some texts)

variable {p' q : Proxy} {n : Negotiation} {a b : Party} {o : Offer} {r : OfferRequest}
variable {now : Instant} {texts : List String} {h : Handle} {x y : String} {id : NegotiationId}

structure Carries (o : Offer) (a b : Party) (r : OfferRequest) (contracts : List Contract) :
    Prop where
  offeror_name : a.name = r.offerorName
  receiver_name : b.name = r.receiverName
  validAfter_eq : o.validAfter = r.validAfter.canonical
  validUntil_eq : o.validUntil = r.validUntil.canonical
  contracts_eq : o.contracts = contracts

theorem lastRequest_of_carries (carries : Carries o a b r contracts)
    (last_eq : n.lastOffer? = some o) (offeror : n.partyByFingerprint o.offeror = .ok a)
    (receiver : n.partyByFingerprint o.receiver = .ok b)
    (restores : us.Restores r.contracts contracts texts) :
    n.lastRequest us = .ok (some (r.asSent n.id)) := by
  simp only [Negotiation.lastRequest, last_eq, offeror, receiver, carries.contracts_eq,
    restores.shown, carries.offeror_name, carries.receiver_name, carries.validAfter_eq,
    carries.validUntil_eq, bind, Except.bind, pure, Except.pure]
  rfl

theorem renderLastOffer_eq (found : p.negotiation x y id = .ok n) (last_eq : n.lastOffer? = some o)
    (restores : p.templates.Restores requested o.contracts texts) :
    p.renderLastOffer x y id = .ok (some texts) := by
  have rendered : o.contracts.mapM p.renderContract = .ok texts := by
    refine mapM_eq_ok_iff.2 ((mapM_eq_ok_iff.1 restores.rendered).imp fun c text => ?_)
    exact renderContract_eq_ok_iff.2
  simp only [renderLastOffer, found, last_eq, rendered, bind, Except.bind, pure, Except.pure]

theorem Commits.shows (commits : Commits p p' now n a b (.offer o))
    (carries : Carries o a b r contracts)
    (restores : p.templates.Restores r.contracts contracts texts) : p'.Shows r n.id texts := by
  have known : p'.register.registered? (n.apply (.offer o) b).key = some (n.apply (.offer o) b) := by
    rw [Negotiation.key_apply]
    exact commits.differs.at_key
  have held := commits.held
  rw [← commits.basis.parties_eq, ← commits.basis.settings_eq] at held
  have sides := (held.sides commits.sound.parties).apply (m := .offer o) (a := b)
  have last_eq : (n.apply (.offer o) b).lastOffer? = some o := Negotiation.lastOffer?_append o
  have ends (x y : Party) (joins : n.Joins x y) {f : Digest} (print : f ∈ x.fingerprints) :
      (n.apply (.offer o) b).partyByFingerprint f = .ok x := by
    rw [sides.partyByFingerprint_eq_ok_iff]
    obtain ⟨rfl, -⟩ | ⟨-, rfl⟩ := joins
    · exact .inl ⟨rfl, print⟩
    · exact .inr ⟨rfl, print⟩
  rw [← commits.basis.templates_eq] at restores
  have shown := lastRequest_of_carries carries last_eq
    (ends a b commits.joins commits.admits.sender_mem)
    (ends b a commits.joins.symm commits.admits.receiver_mem) restores
  obtain ⟨h, -, got⟩ := getBy_of_known known
  have either (x y : Party) (joins : n.Joins x y) :
      p'.negotiation x.name y.name n.id = .ok (n.apply (.offer o) b) := by
    unfold negotiation
    obtain ⟨rfl, rfl⟩ | ⟨rfl, rfl⟩ := joins
    · exact congrArg (Except.map (·.2)) got
    · exact congrArg (Except.map (·.2)) (Register.getBy_comm got)
  have here := either a b commits.joins
  have there := either b a commits.joins.symm
  rw [← carries.contracts_eq] at restores
  rw [carries.offeror_name, carries.receiver_name] at here there
  refine ⟨?_, ?_, renderLastOffer_eq here last_eq restores,
    renderLastOffer_eq there last_eq restores⟩
  · rw [lastRequest, here]
    exact shown
  · rw [lastRequest, there]
    exact shown

theorem transmit_made {relay : Relay} {p₁ : Proxy} {n' : Negotiation} {ask : Negotiation.Ask}
    {prepared : Prepared} {prepare : Negotiation → Except Error Prepared × Negotiation}
    (asks : prepare n = n.prepareFor (p.context now) a ask)
    (ready : n.prepareFor (p.context now) a ask = (.ok prepared, n'))
    (online : relay.send prepared.message prepared.receiver = .ok ())
    (storable : ∀ e, p₁.bank.add prepared.message ≠ .error e)
    (shown : ∃ offer,
      (n.apply prepared.message prepared.receiver).lastRequest p₁.templates = .ok offer) :
    (p₁.transmit relay h n prepare).result = .ok () := by
  rw [transmit_ready p₁ h relay asks ready]
  unfold hand
  rw [online]
  obtain ⟨e, failed, -⟩ | ⟨_, _, -, ⟨e, hidden, -⟩ | ⟨offer, -, settled⟩⟩ :=
    p₁.settle_cases h (n.apply prepared.message prepared.receiver) prepared.message
  · exact absurd failed (storable e)
  · obtain ⟨offer, shown⟩ := shown
    cases hidden.symm.trans shown
  · dsimp only
    rw [settled]

theorem transmit_of_makeOffer {relay : Relay} {checked : Instant} (sound : p.Sound)
    (done : (p.makeOffer relay checked now r).result = .ok id) :
    ∃ p₁ h n contracts, Located p p₁ h n ∧ n.first.name = r.offerorName ∧
      n.second.name = r.receiverName ∧ n.id = id ∧ r.contracts.mapM p.contractOf = .ok contracts ∧
      p.makeOffer relay checked now r = (p₁.transmit relay h n fun n' =>
        n'.prepareOffer (p.context now) n.first r.validAfter r.validUntil contracts).map fun _ => id := by
  cases p.proposes checked now r with
  | declined _ same =>
    rw [same] at done
    cases done
  | exhausted _ same =>
    rw [same] at done
    cases done
  | known asked _ got same =>
    have engages := engages_of_requested sound.parties.wellFormed asked
    obtain ⟨located, rfl, rfl, rfl⟩ := located_of_known sound engages.owned_mem engages.counter_mem
      engages.isCounter (Register.getBy_eq_ok got)
    rw [same] at done ⊢
    obtain ⟨_, -, rfl⟩ := Bank.map_eq_ok_iff.1 done
    exact ⟨_, _, _, _, located, engages.offeror_name, engages.receiver_name, rfl, engages.fit, rfl⟩
  | opened drawn asked _ drew same =>
    have engages := engages_of_requested sound.parties.wellFormed asked
    have located := located_insert drawn sound engages.owned_mem engages.counter_mem engages.isOwned
      engages.isCounter (Register.drawId_fresh drew)
    rw [same] at done ⊢
    obtain ⟨_, passed, rfl⟩ := Bank.map_eq_ok_iff.1 done
    rw [Outcome.eq_of_ifFailed_eq_ok passed]
    exact ⟨_, _, _, _, located, engages.offeror_name, engages.receiver_name, rfl, engages.fit, rfl⟩

theorem Located.carries {relay : Relay} {u : Unit} {p₁ : Proxy}
    {prepare : Negotiation → Except Error Prepared × Negotiation} (located : Located p p₁ h n)
    (sound : p.Sound) (offeror_eq : n.first.name = r.offerorName)
    (receiver_eq : n.second.name = r.receiverName)
    (asks : prepare n =
      n.prepareFor (p.context now) n.first (.offer r.validAfter r.validUntil contracts))
    (done : (p₁.transmit relay h n prepare).result = .ok u) :
    ∃ o, Commits p (p₁.transmit relay h n prepare).proxy now n n.first n.second (.offer o) ∧
      (p₁.transmit relay h n prepare).sent = [⟨r.receiverName, .offer o⟩] ∧
      Carries o n.first n.second r contracts := by
  have prepares : n.Prepares (p.context now) n.first n.second (prepare n) :=
    asks ▸ Negotiation.prepareFor_prepares (located.sides sound) _
  obtain ⟨e, -, -, failed, -, -⟩ | ⟨m, commits, sent, -⟩ := located.transmits sound prepares
  · cases failed.symm.trans done
  · obtain ⟨prepared, n', ready, same⟩ := prepared_of_transmit (sent ▸ List.mem_singleton_self _)
    obtain ⟨key, m', -, drafts, signed⟩ := Negotiation.drafts_of_prepareFor (asks.symm.trans ready)
    cases drafts
    obtain rfl : m = _ := same.trans signed
    exact ⟨_, commits, receiver_eq ▸ sent, offeror_eq, receiver_eq, rfl, rfl, rfl⟩

theorem commits_of_makeOffer {relay : Relay} {checked : Instant} (sound : p.Sound)
    (done : (p.makeOffer relay checked now r).result = .ok id) : ∃ n o contracts,
      Commits p (p.makeOffer relay checked now r).proxy now n n.first n.second (.offer o) ∧
      (p.makeOffer relay checked now r).sent = [⟨r.receiverName, .offer o⟩] ∧
      Carries o n.first n.second r contracts ∧ n.id = id ∧
      r.contracts.mapM p.contractOf = .ok contracts := by
  obtain ⟨p₁, h, n, contracts, located, offeror_eq, receiver_eq, id_eq, fit, same⟩ :=
    transmit_of_makeOffer sound done
  rw [same] at done ⊢
  obtain ⟨_, passed, -⟩ := Bank.map_eq_ok_iff.1 done
  obtain ⟨o, commits, sent, carries⟩ := located.carries sound offeror_eq receiver_eq rfl passed
  exact ⟨n, o, contracts, commits, sent, carries, id_eq, fit⟩

theorem commits_of_receive {relay : Relay} {m : Message} (sound : p.Sound)
    (done : (p.receive relay now m).result = .ok ()) :
    ∃ n, Commits p (p.receive relay now m).proxy now n n.second n.first m := by
  obtain ⟨e, -, quiet⟩ | ⟨a, b, h, n, p₁, counter, owned, looked⟩ :=
    receive_cases (p := p) relay now m
  · rw [quiet] at done
    cases done
  · obtain ⟨located, -, -, -⟩ := located_of_receive sound counter owned looked
    rw [receive_eq_take counter owned looked] at done ⊢
    cases received : n.receive (p₁.context now) m with
    | mk result n' =>
      cases result with
      | error e =>
        unfold take at done
        rw [received] at done
        cases done
      | ok u =>
        obtain ⟨-, admits, timely⟩ := (located.sides sound).receive_eq_ok_iff.1 received
        rw [located.basis.context_eq] at admits timely
        exact ⟨n, (located.take_commits (b := b) sound admits timely).2⟩

theorem resolve_of_nothing {relay : Relay} {whom : Party} {rounds : Nat}
    {batch requested : List Digest} (nothing : ∀ batch, relay.fetch batch whom = .ok []) :
    (resolve relay whom rounds p batch requested).result = .ok () := by
  induction rounds generalizing batch with
  | zero => rfl
  | succ rounds ih =>
    rw [resolve, nothing]
    split
    · rfl
    · exact ih

/-- That a proxy has the settings, the certificates and the templates of another. -/
structure Shares (p q : Proxy) : Prop where
  settings_eq : q.settings = p.settings
  certificates : ∀ a ∈ p.parties.directory.entries,
    ∃ b ∈ q.parties.directory.entries, b.certificate = a.certificate
  templates : p.templates.Within q.templates

theorem Shares.name_eq (shares : p.Shares q) (p_sound : p.Sound) (q_sound : q.Sound)
    (a_mem : a ∈ p.parties.directory.entries) (b_mem : b ∈ q.parties.directory.entries) {f : Digest}
    (a_print : f ∈ a.fingerprints) (b_print : f ∈ b.fingerprints) : b.name = a.name := by
  obtain ⟨a', mem, certificate_eq⟩ := shares.certificates a a_mem
  have built := q_sound.parties.built a' mem
  rw [shares.settings_eq] at built
  obtain ⟨name_eq, prints, -⟩ := built.same (p_sound.parties.built a a_mem) certificate_eq
  rw [← prints] at a_print
  rw [q_sound.parties.wellFormed.eq_of_hash b_mem mem b_print a_print, name_eq]

/-- What is asked for in an offer is what is shown once the offer is out: in the same names, with the
same contracts in the same order, under the id that was given back, and to the millisecond. Its
contracts read as the named templates put them. Any proxy with the same settings, certificates and
templates that takes the offer in shows the same. -/
theorem offer_shown {defined : List Template} {relay : Relay} {checked : Instant}
    (reached : p.Reached) (built : ∀ t ∈ defined, t.Built p.settings)
    (made : Templates.ofList defined = .ok p.templates)
    (done : (p.makeOffer relay checked now r).result = .ok id) :
    ∃ texts m, r.contracts.mapM p.templates.renderRequested = .ok texts ∧
      (p.makeOffer relay checked now r).proxy.Shows r id texts ∧
      (p.makeOffer relay checked now r).sent = [⟨r.receiverName, m⟩] ∧
      ∀ q relay' now', q.Reached → p.Shares q → (q.receive relay' now' m).result = .ok () →
        (q.receive relay' now' m).proxy.Shows r id texts := by
  obtain ⟨n, o, contracts, commits, sent, carries, rfl, fit⟩ :=
    commits_of_makeOffer reached.sound done
  have wellFormed := (Templates.ofList_eq_ok made).2
  obtain ⟨texts, worded, restores⟩ :=
    restores_contracts wellFormed (Templates.sound_ofList built made) fit
  refine ⟨texts, .offer o, worded, ?_, sent, fun q relay' now' q_reached shares taken => ?_⟩
  · exact commits.shows carries (restores _ ⟨wellFormed, fun _ mem => mem⟩)
  · obtain ⟨n', commits'⟩ := commits_of_receive q_reached.sound taken
    have id_eq : n'.id = n.id := commits'.admits.id_eq.symm.trans commits.admits.id_eq
    have offeror_eq := shares.name_eq reached.sound q_reached.sound commits.held.owned_mem
      commits'.held.counter_mem commits.admits.sender_mem commits'.admits.sender_mem
    have receiver_eq := shares.name_eq reached.sound q_reached.sound commits.held.counter_mem
      commits'.held.owned_mem commits.admits.receiver_mem commits'.admits.receiver_mem
    rw [← id_eq]
    exact commits'.shows
      { carries with
        offeror_name := offeror_eq.trans carries.offeror_name
        receiver_name := receiver_eq.trans carries.receiver_name }
      (restores _ shares.templates)

end Proxy

namespace Sample

open Negotiation

theorem opening_shown : ∃ r, ((selling 7).apply (offer 7).message
    (counter "Buyer" buyerSeed)).lastRequest templates = .ok r := by
  obtain ⟨o, message_eq, -⟩ := stretched_eq 7
  have sound := (sellerProxy_sound 7).parties
  have owned_mem : owned "Seller" sellerSeed ∈ (sellerProxy 7).parties.directory.entries :=
    List.mem_cons_self
  have counter_mem : counter "Buyer" buyerSeed ∈ (sellerProxy 7).parties.directory.entries :=
    List.mem_cons_of_mem _ List.mem_cons_self
  have named : ∀ a ∈ (sellerProxy 7).parties.directory.entries,
      a.preferredFingerprint ∈ a.fingerprints := fun a mem =>
    (sound.built a mem).preferredFingerprint_mem (List.cons_ne_nil _ _)
  have ready : (selling 7).prepareFor ⟨templates, settings, now⟩ (owned "Seller" sellerSeed)
      (.offer now yearEnd [contract]) = (.ok ⟨(selling 7).id, (selling 7).offers.length,
        (selling 7).status, counter "Buyer" buyerSeed, (offer 7).message⟩, selling 7) :=
    (opening_ready 7).1
  rw [message_eq] at ready ⊢
  obtain ⟨r, shown⟩ := (shown_start 7 owned_mem counter_mem).offer sound.wellFormed named
    (.outbound _ _ owned_mem ready)
  exact ⟨some r, shown⟩

theorem opening_made : ((sellerProxy 7).makeOffer relay now now opening).result = .ok 7 := by
  have storable (e : Error) : (sellerProxy 7).bank.add (offer 7).message ≠ .error e := by
    intro failed
    obtain ⟨a, -, place, other, found, -⟩ := Bank.store_eq_error_iff.1 ⟨e, failed⟩
    cases found
  have ready : (selling 7).prepareFor ((sellerProxy 7).context now) (owned "Seller" sellerSeed)
      (.offer now yearEnd [contract]) = (.ok (offer 7), selling 7) := (opening_ready 7).1
  have asks : opens 7 (selling 7) = (selling 7).prepareFor ((sellerProxy 7).context now)
      (owned "Seller" sellerSeed) (.offer now yearEnd [contract]) := rfl
  rw [opening_eq, Outcome.result_map, Outcome.result_ifFailed]
  refine Bank.map_eq_ok_iff.2 ⟨(), ?_, rfl⟩
  exact Proxy.transmit_made asks ready (online _ _) storable opening_shown

theorem seller_defined : (∀ t ∈ [template], t.Built (sellerProxy 7).settings) ∧
    Templates.ofList [template] = .ok (sellerProxy 7).templates := by
  refine ⟨fun t mem => ?_, templates_ofList⟩
  rw [List.mem_singleton.1 mem]
  exact template_built

theorem seller_reached : (sellerProxy 7).Reached :=
  .run _ _ _ _ _ [] sellerParties_built sellerParties_ofList

theorem seller_shares : (sellerProxy 7).Shares proxy where
  settings_eq := rfl
  certificates a mem := by
    obtain rfl | mem := List.mem_cons.1 mem
    · exact ⟨counter "Seller" sellerSeed, List.mem_cons_of_mem _ List.mem_cons_self, rfl⟩
    · rw [List.mem_singleton.1 mem]
      exact ⟨owned "Buyer" buyerSeed, List.mem_cons_self, rfl⟩
  templates := ⟨(Templates.ofList_eq_ok templates_ofList).2, fun _ mem => mem⟩

theorem receive_taken : (proxy.receive relay now (offer 7).message).result = .ok () := by
  obtain ⟨event, q, accepts⟩ := offer_accepts 7
  rw [accepts.receive_eq]
  exact Proxy.resolve_of_nothing fun _ => rfl

theorem opening_read : ∃ texts,
    opening.contracts.mapM (sellerProxy 7).templates.renderRequested = .ok texts ∧
    ((sellerProxy 7).makeOffer relay now now opening).proxy.Shows opening 7 texts ∧
    (proxy.receive relay now (offer 7).message).proxy.Shows opening 7 texts := by
  obtain ⟨built, made⟩ := seller_defined
  obtain ⟨texts, m, worded, shown, sent, taken⟩ :=
    Proxy.offer_shown seller_reached built made opening_made
  obtain rfl : (offer 7).message = m :=
    (Envelope.mk.inj (List.singleton_inj.1 ((opening_sent 7).symm.trans sent))).2
  exact ⟨texts, worded, shown, taken proxy relay now (proxy_reached []) seller_shares receive_taken⟩

end Sample

end Parley
