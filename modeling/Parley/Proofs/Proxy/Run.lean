import Parley.Proofs.Proxy.Effect

namespace Parley

/-- What the owner of a party asks for, and what the clock shows meanwhile. -/
inductive Order where
  | offer (checked now : Instant) (request : OfferRequest)
  | accept (now : Instant) (request : AcceptanceRequest)
  | reject (now : Instant) (request : RejectionRequest)

def Order.now : Order → Instant
  | .offer _ now _ => now
  | .accept now _ => now
  | .reject now _ => now

inductive Call where
  | order (relay : Relay) (order : Order)
  | message (relay : Relay) (now : Instant) (m : Message)

namespace Outcome

theorem sent_ifFailed {α : Type} (o : Outcome α) (change : Proxy → Proxy) :
    (o.ifFailed change).sent = o.sent := by
  unfold ifFailed
  split <;> rfl

theorem result_ifFailed {α : Type} (o : Outcome α) (change : Proxy → Proxy) :
    (o.ifFailed change).result = o.result := by
  unfold ifFailed
  split <;> simp [*]

theorem result_map {α β : Type} (o : Outcome α) (f : α → β) : (o.map f).result = o.result.map f :=
  rfl

theorem sent_map {α β : Type} (o : Outcome α) (f : α → β) : (o.map f).sent = o.sent :=
  rfl

end Outcome

namespace Proxy

variable {p p' p₁ : Proxy} {n n' : Negotiation} {key : RegisterKey} {h : Handle} {now : Instant}
variable {m : Message} {a b : Party} {relay : Relay}

def carryOut (p : Proxy) (relay : Relay) : Order → Outcome Unit
  | .offer checked now r => (p.makeOffer relay checked now r).map fun _ => ()
  | .accept now r => p.accept relay now r
  | .reject now r => p.reject relay now r

def perform (p : Proxy) : Call → Outcome Unit
  | .order relay order => p.carryOut relay order
  | .message relay now m => p.receive relay now m

theorem proxy_carryOut_offer {checked : Instant} {r : OfferRequest} :
    (p.carryOut relay (.offer checked now r)).proxy = (p.makeOffer relay checked now r).proxy :=
  rfl

theorem carryOut_accept {r : AcceptanceRequest} :
    p.carryOut relay (.accept now r) = p.accept relay now r :=
  rfl

theorem sent_carryOut_offer {checked : Instant} {r : OfferRequest} :
    (p.carryOut relay (.offer checked now r)).sent = (p.makeOffer relay checked now r).sent :=
  rfl

@[simp] theorem perform_order {order : Order} :
    p.perform (.order relay order) = p.carryOut relay order :=
  rfl

@[simp] theorem perform_message : p.perform (.message relay now m) = p.receive relay now m :=
  rfl

def run (p : Proxy) (calls : List Call) : Proxy :=
  calls.foldl (fun p call => (p.perform call).proxy) p

@[simp] theorem run_nil : p.run [] = p :=
  rfl

@[simp] theorem run_cons {call : Call} {calls : List Call} :
    p.run (call :: calls) = (p.perform call).proxy.run calls :=
  rfl

theorem run_append (calls rest : List Call) : p.run (calls ++ rest) = (p.run calls).run rest :=
  List.foldl_append

theorem Sound.sends (sound : p.Sound) : Sends p p now [] :=
  .inl ⟨sound.rests, rfl⟩

theorem close_cases (senderName offerorName : String) (id : NegotiationId)
    (wf : p.parties.directory.WellFormed)
    (prepare : Party → Negotiation → Except Error Prepared × Negotiation) :
    (∃ e : Error, e.Declines ∧
      ∀ relay, p.close relay senderName offerorName id prepare = .quiet p (.error e)) ∨
    ∃ a b h n, (a ∈ p.parties.directory.entries ∧ a.name = senderName) ∧
      (b ∈ p.parties.directory.entries ∧ b.name = offerorName ∧ b.isOwned = false) ∧
      p.register.find? (.of a.name b.name, id) = some (h, n) ∧
      ∀ relay, p.close relay senderName offerorName id prepare =
        p.transmit relay h n (prepare a) := by
  unfold close
  cases owned : p.parties.byName .owned senderName with
  | error e => exact .inl ⟨e, p.parties.byName_checks _ _ e owned, fun _ => rfl⟩
  | ok a =>
    cases counter : p.parties.byName .counter offerorName with
    | error e => exact .inl ⟨e, p.parties.byName_checks _ _ e counter, fun _ => rfl⟩
    | ok b =>
      obtain ⟨owned_mem, sender_name, -⟩ := (Parties.byName_eq_ok_iff wf).1 owned
      obtain ⟨counter_mem, offeror_name, isCounter⟩ := (Parties.byName_eq_ok_iff wf).1 counter
      cases got : p.register.getBy a.name b.name id with
      | error e =>
        exact .inl ⟨e, p.register.getBy_checks _ _ _ e got, fun _ => by
          simp only [got, bind, Except.bind]⟩
      | ok entry =>
        refine .inr ⟨a, b, entry.1, entry.2, ⟨owned_mem, sender_name⟩, ⟨counter_mem, offeror_name,
          by simpa [Parties.Role.admits] using isCounter⟩, Register.getBy_eq_ok got, fun _ => ?_⟩
        simp only [got, bind, Except.bind, pure, Except.pure]

theorem close_sends {senderName offerorName : String} {id : NegotiationId}
    {prepare : Party → Negotiation → Except Error Prepared × Negotiation} (sound : p.Sound)
    (prepares : ∀ n : Negotiation, n.Sides p.settings n.first n.second →
      n.Prepares (p.context now) n.first n.second (prepare n.first n)) :
    Sends p (p.close relay senderName offerorName id prepare).proxy now
      (p.close relay senderName offerorName id prepare).sent := by
  obtain ⟨e, -, same⟩ | ⟨a, b, h, n, ⟨owned_mem, -⟩, ⟨counter_mem, -, isCounter⟩, found, same⟩ :=
    close_cases senderName offerorName id sound.parties.wellFormed prepare
  · rw [same]
    exact sound.sends
  · obtain ⟨located, rfl, rfl, -⟩ := located_of_known sound owned_mem counter_mem isCounter found
    rw [same]
    exact located.sends sound (Register.registered?_of_find? located.found)
      (prepares n (located.sides sound))

structure Engages (p : Proxy) (r : OfferRequest) (a b : Party) (contracts : List Contract) :
    Prop where
  owned_mem : a ∈ p.parties.directory.entries
  offeror_name : a.name = r.offerorName
  isOwned : a.isOwned = true
  counter_mem : b ∈ p.parties.directory.entries
  receiver_name : b.name = r.receiverName
  isCounter : b.isOwned = false
  fit : r.contracts.mapM p.contractOf = .ok contracts

theorem engages_of_requested {checked : Instant} {r : OfferRequest} {contracts : List Contract}
    (wf : p.parties.directory.WellFormed)
    (asked : p.requested checked r = .ok (a, b, contracts)) : p.Engages r a b contracts := by
  simp only [requested, bind_eq_ok_iff] at asked
  obtain ⟨-, -, a, owned, b, counter, contracts, fit, asked⟩ := asked
  cases asked
  obtain ⟨owned_mem, offeror_name, isOwned⟩ := (Parties.byName_eq_ok_iff wf).1 owned
  obtain ⟨counter_mem, receiver_name, isCounter⟩ := (Parties.byName_eq_ok_iff wf).1 counter
  exact ⟨owned_mem, offeror_name, isOwned, counter_mem, receiver_name,
    by simpa [Parties.Role.admits] using isCounter, fit⟩

/-- What becomes of a request for an offer. It is declined, or no id is left for a new negotiation, or
an offer is prepared and transmitted: in the negotiation that is named, or in a new one, which is
discarded if that fails. -/
inductive Proposes (p : Proxy) (checked now : Instant) (r : OfferRequest) : Prop
  | declined {e : Error} (declines : e.Declines)
    (same : ∀ relay, p.makeOffer relay checked now r = .quiet p (.error e))
  | exhausted (drawn : Nat) (same : ∀ relay, p.makeOffer relay checked now r =
      .quiet { p with register := { p.register with drawn } }
        (.error (.idGenerationExhausted p.register.attempts)))
  | known {a b : Party} {contracts : List Contract} {id : NegotiationId} {h : Handle}
    {n : Negotiation} (asked : p.requested checked r = .ok (a, b, contracts))
    (id_eq : r.id = some id) (got : p.register.getBy a.name b.name id = .ok (h, n))
    (same : ∀ relay, p.makeOffer relay checked now r = (p.transmit relay h n fun n =>
      n.prepareOffer (p.context now) a r.validAfter r.validUntil contracts).map fun _ => id)
  | opened {a b : Party} {contracts : List Contract} {id : NegotiationId} (drawn : Nat)
    (asked : p.requested checked r = .ok (a, b, contracts)) (id_eq : r.id = none)
    (drew : p.register.drawId (.of a.name b.name) p.register.attempts p.register.drawn =
      (some id, drawn))
    (same : ∀ relay, p.makeOffer relay checked now r =
      ((transmit { p with register := ({ p.register with drawn }.insert id a b).2 } relay
        p.register.negotiations.length (.start id a b) fun n => n.prepareOffer (p.context now) a
          r.validAfter r.validUntil contracts).ifFailed
            (·.discard p.register.negotiations.length)).map fun _ => id)

theorem proposes (p : Proxy) (checked now : Instant) (r : OfferRequest) :
    p.Proposes checked now r := by
  cases asked : p.requested checked r with
  | error e =>
    refine .declined (p.requested_checks checked r e asked) fun relay => ?_
    unfold requested at asked
    simp only [makeOffer, asked]
  | ok parts =>
    obtain ⟨a, b, contracts⟩ := parts
    have unfolded := asked
    unfold requested at unfolded
    cases id_eq : r.id with
    | some id =>
      cases got : p.register.getBy a.name b.name id with
      | error e =>
        exact .declined (p.register.getBy_checks _ _ _ e got) fun relay => by
          simp only [makeOffer, unfolded, id_eq, got]
      | ok entry =>
        exact .known asked id_eq got fun relay => by simp only [makeOffer, unfolded, id_eq, got]
    | none =>
      cases created : p.register.create a b with
      | mk result register =>
        cases result with
        | error e =>
          obtain ⟨rfl, drawn, rfl⟩ := Register.create_eq_error created
          exact .exhausted drawn fun relay => by simp only [makeOffer, unfolded, id_eq, created]
        | ok entry =>
          obtain ⟨h, n⟩ := entry
          obtain ⟨id, drawn, drew, opened⟩ := Register.create_eq_ok created
          cases opened
          refine .opened drawn asked id_eq drew fun relay => ?_
          simp only [makeOffer, unfolded, id_eq, created]
          rfl

theorem makeOffer_sends {checked : Instant} {r : OfferRequest} (sound : p.Sound) :
    Sends p (p.makeOffer relay checked now r).proxy now (p.makeOffer relay checked now r).sent := by
  cases p.proposes checked now r with
  | declined _ same =>
    rw [same]
    exact sound.sends
  | exhausted _ same =>
    rw [same]
    refine .inl ⟨⟨⟨rfl, rfl, rfl⟩, ⟨sound.parties, ?_, sound.standing⟩, fun _ => .inl rfl⟩, rfl⟩
    exact ⟨sound.register.listed, sound.register.holds⟩
  | known asked _ got same =>
    have engages := engages_of_requested sound.parties.wellFormed asked
    obtain ⟨located, rfl, rfl, -⟩ := located_of_known sound engages.owned_mem engages.counter_mem
      engages.isCounter (Register.getBy_eq_ok got)
    rw [same]
    exact located.sends sound (Register.registered?_of_find? located.found)
      (Negotiation.prepareOffer_prepares (located.sides sound))
  | opened drawn asked _ drew same =>
    have engages := engages_of_requested sound.parties.wellFormed asked
    have located := located_insert drawn sound engages.owned_mem engages.counter_mem engages.isOwned
      engages.isCounter (Register.drawId_fresh drew)
    rw [same]
    exact located.sends_new sound (Negotiation.prepareOffer_prepares (located.sides sound))

theorem carryOut_sends (sound : p.Sound) (relay : Relay) (order : Order) :
    Sends p (p.carryOut relay order).proxy order.now (p.carryOut relay order).sent := by
  cases order with
  | offer checked now r => exact makeOffer_sends sound
  | accept now r =>
    exact close_sends sound fun n sides =>
      Negotiation.prepareAcceptance_prepares sides
  | reject now r =>
    exact close_sends sound fun n sides =>
      Negotiation.prepareRejection_prepares sides

theorem Sends.basis {sent : List Envelope} (sends : Sends p p' now sent) : SameBasis p p' := by
  obtain ⟨rests, -⟩ | ⟨n, m, commits, -⟩ := sends
  · exact rests.basis
  · exact commits.basis

theorem Sends.sound {sent : List Envelope} (sends : Sends p p' now sent) : p'.Sound := by
  obtain ⟨rests, -⟩ | ⟨n, m, commits, -⟩ := sends
  · exact rests.sound
  · exact commits.sound

theorem perform_effect (sound : p.Sound) (call : Call) :
    (∃ now, Rests p (p.perform call).proxy now) ∨
      ∃ now n a b m, Commits p (p.perform call).proxy now n a b m := by
  cases call with
  | order relay order =>
    obtain ⟨rests, -⟩ | ⟨n, m, commits, -⟩ := carryOut_sends sound relay order
    · exact .inl ⟨_, rests⟩
    · exact .inr ⟨_, n, _, _, m, commits⟩
  | message relay now m =>
    obtain ⟨-, rests | ⟨n, commits, -⟩⟩ := receive_effect sound relay now m
    · exact .inl ⟨_, rests⟩
    · exact .inr ⟨_, n, _, _, m, commits⟩

theorem perform_basis (sound : p.Sound) (call : Call) : SameBasis p (p.perform call).proxy := by
  obtain ⟨now, rests⟩ | ⟨now, n, a, b, m, commits⟩ := perform_effect sound call
  · exact rests.basis
  · exact commits.basis

theorem perform_sound (sound : p.Sound) (call : Call) : (p.perform call).proxy.Sound := by
  obtain ⟨now, rests⟩ | ⟨now, n, a, b, m, commits⟩ := perform_effect sound call
  · exact rests.sound
  · exact commits.sound

theorem run_sound (sound : p.Sound) (calls : List Call) : (p.run calls).Sound := by
  induction calls generalizing p with
  | nil => exact sound
  | cons call rest ih => exact ih (perform_sound sound call)

theorem run_basis (sound : p.Sound) (calls : List Call) : SameBasis p (p.run calls) := by
  induction calls generalizing p with
  | nil => exact .refl
  | cons call rest ih => exact (perform_basis sound call).trans (ih (perform_sound sound call))

/-- A proxy whose parties were built under its own settings, after any operations. -/
inductive Reached : Proxy → Prop
  | run (parties : List Party) (ps : Parties) (templates : Templates) (s : Settings)
    (ids : Nat → NegotiationId) (calls : List Call) (built : ∀ p ∈ parties, p.Built s)
    (made : Parties.ofList parties s = .ok ps) : Reached ((start ps templates s ids).run calls)

theorem Reached.sound (reached : p.Reached) : p.Sound := by
  obtain ⟨parties, ps, templates, s, ids, calls, built, made⟩ := reached
  exact run_sound (sound_start (Parties.sound_ofList built made)) calls

theorem byName_of_mem {ps : Parties} {s : Settings} {role : Parties.Role} (sound : ps.Sound s)
    (mem : a ∈ ps.directory.entries) (admitted : role.admits a = true) :
    ps.byName role a.name = .ok a :=
  (Parties.byName_eq_ok_iff sound.wellFormed).2 ⟨mem, rfl, admitted⟩

theorem getBy_of_known (known : p.register.registered? n.key = some n) :
    ∃ h, p.register.find? n.key = some (h, n) ∧
      p.register.getBy n.first.name n.second.name n.id = .ok (h, n) := by
  obtain ⟨h, found⟩ := Register.registered?_eq_some known
  exact ⟨h, found, Register.getBy_of_find? found⟩

theorem Located.byName (located : Located p p h n) (sound : p.Sound) :
    p.parties.byName .owned n.first.name = .ok n.first ∧
      p.parties.byName .counter n.second.name = .ok n.second :=
  ⟨byName_of_mem sound.parties located.held.owned_mem located.held.isOwned,
    byName_of_mem sound.parties located.held.counter_mem
      (by simp [Parties.Role.admits, located.held.isCounter])⟩

theorem close_eq_transmit (sound : p.Sound) (known : p.register.registered? n.key = some n) :
    ∃ h, Located p p h n ∧ ∀ relay prepare,
      p.close relay n.first.name n.second.name n.id prepare =
        p.transmit relay h n (prepare n.first) := by
  obtain ⟨h, found, got⟩ := getBy_of_known known
  have located := located_of_find? sound found
  obtain ⟨owned, counter⟩ := located.byName sound
  refine ⟨h, located, fun relay prepare => ?_⟩
  unfold close
  simp only [owned, counter, got, bind, Except.bind, pure, Except.pure]

theorem close_commits {prepare : Party → Negotiation → Except Error Prepared × Negotiation}
    (sound : p.Sound) (known : p.register.registered? n.key = some n)
    (ready : prepare n.first n = (.ok ⟨n.id, n.offers.length, n.status, n.second, m⟩, n))
    (admits : n.Admits (p.context now) n.first n.second m)
    (online : relay.send m n.second = .ok ()) :
    Commits p (p.close relay n.first.name n.second.name n.id prepare).proxy now n n.first n.second
      m := by
  obtain ⟨h, located, same⟩ := close_eq_transmit sound known
  rw [same]
  exact (located.transmit_eq sound ready admits online).1

theorem makeOffer_commits {checked : Instant} {r : OfferRequest} {contracts : List Contract}
    (sound : p.Sound) (known : p.register.registered? n.key = some n) (id_eq : r.id = some n.id)
    (offeror_eq : r.offerorName = n.first.name) (receiver_eq : r.receiverName = n.second.name)
    (valid : r.validate checked = .ok ()) (fit : r.contracts.mapM p.contractOf = .ok contracts)
    (ready : n.prepareOffer (p.context now) n.first r.validAfter r.validUntil contracts =
      (.ok ⟨n.id, n.offers.length, n.status, n.second, m⟩, n))
    (admits : n.Admits (p.context now) n.first n.second m)
    (online : relay.send m n.second = .ok ()) :
    Commits p (p.makeOffer relay checked now r).proxy now n n.first n.second m := by
  obtain ⟨h, found, got⟩ := getBy_of_known known
  have located := located_of_find? sound found
  obtain ⟨owned, counter⟩ := located.byName sound
  unfold makeOffer
  simp only [valid, offeror_eq, receiver_eq, owned, counter, fit, id_eq, got, bind, Except.bind,
    pure, Except.pure]
  have ready' : (fun x : Negotiation => x.prepareOffer (p.context now) n.first r.validAfter
      r.validUntil contracts) n = (.ok ⟨n.id, n.offers.length, n.status, n.second, m⟩, n) := ready
  exact (located.transmit_eq sound ready' admits online).1

theorem makeOffer_eq_new {checked : Instant} {r : OfferRequest} {contracts : List Contract}
    {id : NegotiationId} {drawn : Nat} (sound : p.parties.Sound p.settings)
    (owned_mem : a ∈ p.parties.directory.entries) (counter_mem : b ∈ p.parties.directory.entries)
    (isOwned : a.isOwned = true) (isCounter : b.isOwned = false)
    (drew : p.register.drawId (.of a.name b.name) p.register.attempts p.register.drawn =
      (some id, drawn))
    (id_eq : r.id = none) (offeror_eq : r.offerorName = a.name) (receiver_eq : r.receiverName = b.name)
    (valid : r.validate checked = .ok ()) (fit : r.contracts.mapM p.contractOf = .ok contracts) :
    p.makeOffer relay checked now r =
      ((transmit { p with register := ({ p.register with drawn }.insert id a b).2 } relay
        p.register.negotiations.length (.start id a b) fun n => n.prepareOffer (p.context now) a
          r.validAfter r.validUntil contracts).ifFailed (·.discard p.register.negotiations.length)).map
        fun _ => id := by
  have owned : p.parties.byName .owned a.name = .ok a := byName_of_mem sound owned_mem isOwned
  have counter : p.parties.byName .counter b.name = .ok b :=
    byName_of_mem sound counter_mem (by simp [Parties.Role.admits, isCounter])
  unfold makeOffer
  simp only [valid, offeror_eq, receiver_eq, owned, counter, fit, id_eq, Register.create, drew, bind,
    Except.bind, pure, Except.pure]
  rfl

end Proxy

end Parley
