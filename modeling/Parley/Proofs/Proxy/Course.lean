import Parley.Proofs.Negotiation.Onward
import Parley.Proofs.Proxy.Run

/-!
# The course of an operation

Whatever proxy it is asked of, an operation finds nothing to work on, or it picks one negotiation,
which it may have to open. There the update is refused, or its message goes ahead. What an owner asks
for takes the same course whatever the relay does, up to the moment when the message is handed to it:
then it is sent and committed, or it is not delivered and nothing comes of it.
-/

namespace Parley

namespace Negotiation

/-- That an update adds a message to a negotiation and passes the turn to a party: the message was
received, or it was prepared for one of the parties. -/
inductive Takes (ps : Parties) (ctx : UpdateContext) (n : Negotiation) (m : Message) (b : Party) :
    Prop
  | inbound (received : n.receive ctx m = (.ok (), n.apply m b))
  | outbound (actor : Party) (ask : Ask) (mem : actor ∈ ps.directory.entries)
    (ready : n.prepareFor ctx actor ask = (.ok ⟨n.id, n.offers.length, n.status, b, m⟩, n))

end Negotiation

def Call.now : Call → Instant
  | .order _ asked => asked.now
  | .message _ now _ => now

/-- That an operation names a negotiation: by the names and the id it was asked with, or by the
fingerprints and the id of a message. -/
def Call.Names (p : Proxy) : Call → RegisterKey → Prop
  | .order _ (.offer _ _ r), key =>
    ∃ id, r.id = some id ∧ key = (.of r.offerorName r.receiverName, id)
  | .order _ (.accept _ r), key => key = (.of r.acceptorName r.offerorName, r.id)
  | .order _ (.reject _ r), key => key = (.of r.rejectorName r.offerorName, r.id)
  | .message _ _ m, key => ∃ a b, p.parties.byFingerprint .owned m.receiver = .ok a ∧
    p.parties.byFingerprint .counter m.sender = .ok b ∧ key = (.of a.name b.name, m.id)

def Order.Asks : Order → Negotiation.Ask → Prop
  | .offer _ _ r, ask => ∃ contracts, ask = .offer r.validAfter r.validUntil contracts
  | .accept _ _, ask => ask = .acceptance
  | .reject _ _, ask => ask = .rejection

/-- That an operation is about a negotiation: the one it names, or the one that it opens under the id
that is drawn for it. -/
inductive Call.Concerns (p : Proxy) : Call → RegisterKey → Prop
  | named {call : Call} {key : RegisterKey} (named : call.Names p key) : Concerns p call key
  | drawn {relay : Relay} {checked now : Instant} {r : OfferRequest} {id : NegotiationId} {drawn : Nat}
    (id_eq : r.id = none) (drew : p.register.drawId (.of r.offerorName r.receiverName)
      p.register.attempts p.register.drawn = (some id, drawn)) :
    Concerns p (.order relay (.offer checked now r)) (.of r.offerorName r.receiverName, id)

inductive Error.Hopeless : Error → Prop
  | declines {e : Error} (declines : e.Declines) : e.Hopeless
  | exhausted (attempts : Nat) : (Error.idGenerationExhausted attempts).Hopeless

theorem Outcome.map_unit (o : Outcome Unit) : (o.map fun _ => ()) = o := by
  unfold map
  cases o with
  | mk result proxy sent events fetches => cases result <;> rfl

theorem Outcome.map_map {α β γ : Type} (o : Outcome α) (f : α → β) (g : β → γ) :
    (o.map f).map g = o.map fun x => g (f x) := by
  unfold map
  cases o with
  | mk result proxy sent events fetches => cases result <;> rfl

namespace Proxy

variable {p p₁ : Proxy} {n n' : Negotiation} {key : RegisterKey} {h : Handle} {now : Instant}
variable {m : Message} {a b actor : Party} {relay : Relay} {call : Call} {ask : Negotiation.Ask}
variable {order : Order} {prepare : Negotiation → Except Error Prepared × Negotiation}

/-- The negotiation an operation works on: the one registered under a key it names, or a new one of
an owned party and a counter-party. -/
inductive Picks (p : Proxy) (call : Call) : Proxy → Handle → Negotiation → Prop
  | known {key : RegisterKey} {h : Handle} {n : Negotiation} (named : call.Names p key)
    (found : p.register.find? key = some (h, n)) : Picks p call p h n
  | opened (drawn : Nat) {id : NegotiationId} {a b : Party}
    (owned_mem : a ∈ p.parties.directory.entries) (isOwned : a.isOwned = true)
    (counter_mem : b ∈ p.parties.directory.entries) (isCounter : b.isOwned = false)
    (missing : p.register.registered? (Negotiation.start id a b).key = none)
    (concerns : call.Concerns p (Negotiation.start id a b).key) :
    Picks p call { p with register := ({ p.register with drawn }.insert id a b).2 }
      p.register.negotiations.length (.start id a b)

theorem Picks.basis (picks : Picks p call p₁ h n) : SameBasis p p₁ := by
  cases picks with
  | known named found => exact .refl
  | opened drawn owned_mem isOwned counter_mem isCounter missing => exact ⟨rfl, rfl, rfl⟩

theorem Picks.bank_eq (picks : Picks p call p₁ h n) : p₁.bank = p.bank := by
  cases picks <;> rfl

theorem Picks.get?_eq (picks : Picks p call p₁ h n) : p₁.register.get? h = some n := by
  cases picks with
  | known named found => exact (Register.find?_eq_some_iff.1 found).2
  | opened drawn owned_mem isOwned counter_mem isCounter missing =>
    exact (Register.find?_eq_some_iff.1 (Register.find?_insert _ _ _ _)).2

theorem put_eq_self (got : p.register.get? h = some n) : p.put h n = p := by
  obtain ⟨inside, there⟩ := List.getElem?_eq_some_iff.1 got
  unfold put Register.put
  rw [← there, List.set_getElem_self inside]

theorem isPristine_apply : (n.apply m b).isPristine = false := by
  simp [Negotiation.isPristine, Negotiation.status_apply_ne]

theorem Picks.discard_settle (picks : Picks p call p₁ h n) :
    (p₁.settle h (n.apply m b) m).proxy.discard h = (p₁.settle h (n.apply m b) m).proxy := by
  refine discard_eq_self (n := n.apply m b) ?_ isPristine_apply
  rw [settle_eq.2.1]
  have inside := (List.getElem?_eq_some_iff.1 picks.get?_eq).1
  simp [Register.put, Register.get?, inside]

def hand (p p₂ : Proxy) (h : Handle) (n : Negotiation) (b : Party) (m : Message) (relay : Relay) :
    Outcome Unit :=
  match relay.send m b with
  | .error cause => .quiet p₂ (.error (.relay cause))
  | .ok () => { p.settle h (n.apply m b) m with sent := [⟨b.name, m⟩] }

/-- The course that an order takes, whatever the relay does. -/
inductive Course (p : Proxy) (order : Order) (f : Relay → Outcome Unit) : Prop
  | idle {e : Error} (drawn : Nat) (hopeless : e.Hopeless)
    (eq : ∀ relay, f relay = .quiet { p with register := { p.register with drawn } } (.error e))
  | refused {p₁ : Proxy} {h : Handle} {n n' : Negotiation} {e : Error}
    (picks : ∀ relay, Picks p (.order relay order) p₁ h n) (declines : e.Declines)
    (refuses : n.Refuses order.now e n') (eq : ∀ relay, f relay = p₁.refuse h n n' e)
  | hands {p₁ p₂ : Proxy} {h : Handle} {n : Negotiation} {actor b : Party} {m : Message}
    (ask : Negotiation.Ask) (asked : order.Asks ask)
    (picks : ∀ relay, Picks p (.order relay order) p₁ h n)
    (mem : actor ∈ p.parties.directory.entries) (ready : n.prepareFor (p.context order.now) actor ask =
      (.ok ⟨n.id, n.offers.length, n.status, b, m⟩, n))
    (left : p₂ = p ∨ p₂ = (p₁.put h n).discard h) (eq : ∀ relay, f relay = p₁.hand p₂ h n b m relay)

theorem transmit_ready {prepared : Prepared} (p₁ : Proxy) (h : Handle) (relay : Relay)
    (asks : prepare n = n.prepareFor (p.context now) actor ask)
    (ready : n.prepareFor (p.context now) actor ask = (.ok prepared, n')) :
    p₁.transmit relay h n prepare =
      p₁.hand (p₁.put h n) h n prepared.receiver prepared.message relay := by
  obtain ⟨rfl, prepared_eq, turn⟩ := Negotiation.prepareFor_eq_ok ready
  have committed : n'.commit ⟨prepared⟩ =
      (.ok prepared.message, n'.apply prepared.message prepared.receiver) := by
    rw [prepared_eq]
    exact Negotiation.commit_ready turn
  unfold transmit hand Prepared.deliver
  rw [asks, ready]
  dsimp only
  cases online : relay.send prepared.message prepared.receiver with
  | error cause => rfl
  | ok u =>
    dsimp only
    rw [committed]
    dsimp only
    rw [settle_eq.2.2]

theorem transmit_eq (p₁ : Proxy) (h : Handle)
    (asks : prepare n = n.prepareFor (p.context now) actor ask) :
    (∃ e n', e.Declines ∧ n.Refuses now e n' ∧ ∀ relay,
      p₁.transmit relay h n prepare = p₁.refuse h n n' e) ∨
    ∃ b m, n.prepareFor (p.context now) actor ask =
        (.ok ⟨n.id, n.offers.length, n.status, b, m⟩, n) ∧
      ∀ relay, p₁.transmit relay h n prepare = p₁.hand (p₁.put h n) h n b m relay := by
  cases ready : n.prepareFor (p.context now) actor ask with
  | mk result n' =>
    cases result with
    | error e =>
      have checks := n.prepareFor_checks (p.context now) actor ask
      rw [ready] at checks
      have refuses := Negotiation.refuses_of_prepareFor ready
      refine .inl ⟨e, n', checks e rfl, refuses, fun relay => ?_⟩
      unfold transmit
      rw [asks, ready]
    | ok prepared =>
      obtain ⟨rfl, prepared_eq, -⟩ := Negotiation.prepareFor_eq_ok ready
      exact .inr ⟨prepared.receiver, prepared.message, congrArg (·, n') (congrArg _ prepared_eq),
        fun relay => transmit_ready p₁ h relay asks ready⟩

theorem transmit_known_course (ask : Negotiation.Ask) (asked : order.Asks ask)
    (named : ∀ relay, Call.Names p (.order relay order) key)
    (found : p.register.find? key = some (h, n)) (mem : actor ∈ p.parties.directory.entries)
    (asks : prepare n = n.prepareFor (p.context order.now) actor ask) :
    Course p order fun relay => p.transmit relay h n prepare := by
  have picks : ∀ relay, Picks p (.order relay order) p h n := fun relay => .known (named relay) found
  obtain ⟨e, n', declines, refuses, refused⟩ | ⟨b, m, ready, handed⟩ := transmit_eq p h asks
  · exact .refused picks declines refuses refused
  · have same : p.put h n = p := put_eq_self (Register.find?_eq_some_iff.1 found).2
    exact .hands ask asked picks mem ready (.inl same) handed

theorem close_course {senderName offerorName : String} {id : NegotiationId}
    {prepare : Party → Negotiation → Except Error Prepared × Negotiation}
    (wf : p.parties.directory.WellFormed)
    (named : ∀ relay, Call.Names p (.order relay order) (.of senderName offerorName, id))
    (ask : Negotiation.Ask) (asked : order.Asks ask)
    (asks : ∀ a n, prepare a n = n.prepareFor (p.context order.now) a ask) :
    Course p order fun relay => p.close relay senderName offerorName id prepare := by
  obtain ⟨e, declines, same⟩ | ⟨a, b, h, n, ⟨owned_mem, rfl⟩, ⟨-, rfl, -⟩, found, same⟩ :=
    close_cases senderName offerorName id wf prepare
  · exact .idle p.register.drawn (.declines declines) same
  · simp only [same]
    exact transmit_known_course ask asked named found owned_mem (asks a _)

theorem transmit_new_course (ask : Negotiation.Ask) (asked : order.Asks ask)
    (picks : ∀ relay, Picks p (.order relay order) p₁ h n)
    (mem : actor ∈ p.parties.directory.entries)
    (asks : prepare n = n.prepareFor (p.context order.now) actor ask) :
    Course p order fun relay => (p₁.transmit relay h n prepare).ifFailed (·.discard h) := by
  obtain ⟨e, n', declines, refuses, refused⟩ | ⟨b, m, ready, handed⟩ :=
    transmit_eq p₁ h asks
  · refine .refused picks declines refuses fun relay => ?_
    rw [refused relay]
    unfold Outcome.ifFailed refuse
    dsimp only
    rw [discard_discard]
  · refine .hands ask asked picks mem ready (.inr rfl) fun relay => ?_
    rw [handed relay]
    unfold Outcome.ifFailed hand
    cases online : relay.send m b with
    | error cause => rfl
    | ok u =>
      dsimp only
      rw [(picks relay).discard_settle]
      split <;> rfl

theorem makeOffer_course {checked : Instant} {r : OfferRequest}
    (wf : p.parties.directory.WellFormed) :
    Course p (.offer checked now r) fun relay =>
      (p.makeOffer relay checked now r).map fun _ => () := by
  cases p.proposes checked now r with
  | declined declines same =>
    simp only [same]
    exact .idle p.register.drawn (.declines declines) fun _ => rfl
  | exhausted drawn same =>
    simp only [same]
    exact .idle drawn (.exhausted _) fun _ => rfl
  | @known a b contracts id _ _ asked id_eq got same =>
    have engages := engages_of_requested wf asked
    simp only [same, Outcome.map_map, Outcome.map_unit]
    exact transmit_known_course (.offer r.validAfter r.validUntil contracts) ⟨contracts, rfl⟩
      (fun _ => ⟨id, id_eq, by rw [engages.offeror_name, engages.receiver_name]⟩)
      (Register.getBy_eq_ok got) engages.owned_mem rfl
  | @opened a b contracts id drawn asked id_eq drew same =>
    have engages := engages_of_requested wf asked
    have missing := Register.drawId_fresh drew
    have concerns : ∀ relay, Call.Concerns p (.order relay (.offer checked now r))
        (.of a.name b.name, id) := by
      rw [engages.offeror_name, engages.receiver_name] at drew ⊢
      exact fun _ => .drawn id_eq drew
    simp only [same, Outcome.map_map, Outcome.map_unit]
    exact transmit_new_course (.offer r.validAfter r.validUntil contracts) ⟨contracts, rfl⟩
      (fun relay => .opened drawn engages.owned_mem engages.isOwned engages.counter_mem
        engages.isCounter missing (concerns relay)) engages.owned_mem rfl

theorem carryOut_course (wf : p.parties.directory.WellFormed) (order : Order) :
    Course p order fun relay => p.carryOut relay order := by
  cases order with
  | offer checked now r => exact makeOffer_course wf
  | accept now r => exact close_course wf (fun _ => rfl) .acceptance rfl fun _ _ => rfl
  | reject now r => exact close_course wf (fun _ => rfl) .rejection rfl fun _ _ => rfl

theorem lookUp_picks (owned_mem : a ∈ p.parties.directory.entries) (isOwned : a.isOwned = true)
    (counter_mem : b ∈ p.parties.directory.entries) (isCounter : b.isOwned = false)
    (named : call.Names p (.of a.name b.name, m.id)) (looked : p.lookUp m a b = .ok ((h, n), p₁)) :
    Picks p call p₁ h n := by
  obtain ⟨rfl, known⟩ | ⟨-, missing, rfl, rfl, rfl⟩ := lookUp_cases looked
  · exact .known named known
  · exact .opened p.register.drawn owned_mem isOwned counter_mem isCounter missing (.named named)

theorem receive_course (wf : p.parties.directory.WellFormed) (relay : Relay) (now : Instant)
    (m : Message) :
    (∃ e : Error, e.Declines ∧ p.receive relay now m = .quiet p (.error e)) ∨
      ∃ a b h n p₁, p.parties.byFingerprint .counter m.sender = .ok b ∧
        p.parties.byFingerprint .owned m.receiver = .ok a ∧
        p.lookUp m a b = .ok ((h, n), p₁) ∧ Picks p (.message relay now m) p₁ h n := by
  obtain declined | ⟨a, b, h, n, p₁, counter, owned, looked⟩ := receive_cases (p := p) relay now m
  · exact .inl declined
  · obtain ⟨-, counter_mem, -, isCounter⟩ := (Parties.byFingerprint_eq_ok_iff wf).1 counter
    obtain ⟨-, owned_mem, -, isOwned⟩ := (Parties.byFingerprint_eq_ok_iff wf).1 owned
    replace isCounter : b.isOwned = false := by simpa [Parties.Role.admits] using isCounter
    exact .inr ⟨a, b, h, n, p₁, counter, owned, looked,
      lookUp_picks owned_mem isOwned counter_mem isCounter ⟨a, b, owned, counter, rfl⟩ looked⟩

inductive Performs (p : Proxy) : Call → Outcome Unit → Prop
  | idle {call : Call} {e : Error} (drawn : Nat) (hopeless : e.Hopeless) :
    Performs p call (.quiet { p with register := { p.register with drawn } } (.error e))
  | refused {call : Call} {p₁ : Proxy} {h : Handle} {n n' : Negotiation} {e : Error}
    (picks : Picks p call p₁ h n) (declines : e.Declines) (refuses : n.Refuses call.now e n') :
    Performs p call (p₁.refuse h n n' e)
  | undelivered {relay : Relay} {order : Order} {p₁ p₂ : Proxy} {h : Handle} {n : Negotiation}
    (cause : RelayError) (picks : Picks p (.order relay order) p₁ h n)
    (left : p₂ = p ∨ p₂ = (p₁.put h n).discard h) :
    Performs p (.order relay order) (.quiet p₂ (.error (.relay cause)))
  | sent {relay : Relay} {order : Order} {p₁ : Proxy} {h : Handle} {n : Negotiation}
    {actor b : Party} {m : Message} (ask : Negotiation.Ask)
    (picks : Picks p (.order relay order) p₁ h n) (mem : actor ∈ p.parties.directory.entries)
    (ready : n.prepareFor (p.context order.now) actor ask =
      (.ok ⟨n.id, n.offers.length, n.status, b, m⟩, n)) :
    Performs p (.order relay order) { p₁.settle h (n.apply m b) m with sent := [⟨b.name, m⟩] }
  | taken {relay : Relay} {now : Instant} {m : Message} {p₁ : Proxy} {h : Handle} {n : Negotiation}
    {a : Party} (whom : Party) (picks : Picks p (.message relay now m) p₁ h n)
    (received : n.receive (p.context now) m = (.ok (), n.apply m a)) :
    Performs p (.message relay now m)
      ((p₁.settle h (n.apply m a) m).andThen fun q () => q.resolveReferences relay m whom)

theorem perform_performs (wf : p.parties.directory.WellFormed) (call : Call) :
    Performs p call (p.perform call) := by
  cases call with
  | order relay order =>
    rw [perform_order]
    cases carryOut_course wf order with
    | idle drawn hopeless eq =>
      rw [eq]
      exact .idle drawn hopeless
    | refused picks declines refuses eq =>
      rw [eq]
      exact .refused (picks relay) declines refuses
    | @hands _ p₂ h n actor b m ask asked picks mem ready left eq =>
      rw [eq]
      unfold hand
      cases relay.send m b with
      | error cause => exact .undelivered cause (picks relay) left
      | ok u => exact .sent ask (picks relay) mem ready
  | message relay now m =>
    rw [perform_message]
    obtain ⟨e, declines, quiet⟩ | ⟨a, b, h, n, p₁, counter, owned, looked, picks⟩ :=
      receive_course wf relay now m
    · rw [quiet]
      exact .idle p.register.drawn (.declines declines)
    · rw [receive_eq_take counter owned looked]
      unfold take
      cases received : n.receive (p₁.context now) m with
      | mk result n' =>
        rw [picks.basis.context_eq] at received
        cases result with
        | error e =>
          have checks := n.receive_checks (p.context now) m
          rw [received] at checks
          exact .refused picks (checks e rfl) (Negotiation.refuses_of_receive received)
        | ok u =>
          obtain ⟨a, -, -, rfl⟩ := Negotiation.receive_eq_ok received
          exact .taken b picks received

end Proxy

end Parley
