import Parley.Proofs.Proxy.Archive

/-!
# What is sent is what is committed

A proxy is wired to a relay that keeps everything in memory and may be cut off at any time. The
outbox is, in order, what the proxy committed on behalf of the parties it owns, each message under
the name of the counter-party of its negotiation. Of a message that the relay does not take, nothing
comes.
-/

namespace Parley

namespace Negotiation

variable {n n' : Negotiation} {ctx : UpdateContext} {m : Message} {a b : Party}

def envelope? (n : Negotiation) (m : Message) : Option Envelope := do
  let sender ← (n.partyByFingerprint m.sender).toOption
  guard sender.isOwned
  let receiver ← (n.counterpartOf sender).toOption
  return ⟨receiver.name, m⟩

theorem envelope?_congr (first_eq : n'.first = n.first) (second_eq : n'.second = n.second) :
    n'.envelope? m = n.envelope? m := by
  have found : (n'.partyByFingerprint m.sender).toOption = (n.partyByFingerprint m.sender).toOption := by
    unfold partyByFingerprint parties
    rw [first_eq, second_eq]
    split <;> rfl
  have other : ∀ a, (n'.counterpartOf a).toOption = (n.counterpartOf a).toOption := by
    intro a
    unfold counterpartOf
    rw [first_eq, second_eq]
    split
    · rfl
    · split <;> rfl
  unfold envelope?
  rw [found]
  simp only [other]

theorem envelope?_apply : (n.apply m b).envelope? m = n.envelope? m :=
  envelope?_congr first_apply second_apply

theorem envelope?_of_receive (received : n.receive ctx m = (.ok (), n')) :
    n.envelope? m = none := by
  obtain ⟨a, b, route, -⟩ := route_of_receive received
  obtain ⟨-, sender, -, isCounter, -⟩ := inboundRoute_eq_ok route
  unfold envelope?
  rw [sender]
  simp [Except.toOption, isCounter]

end Negotiation

namespace Proxy

variable {p p' p₁ : Proxy} {n n' : Negotiation} {key : RegisterKey} {h : Handle} {now : Instant}
variable {m : Message} {a b actor : Party} {call : Call} {order : Order} {ask : Negotiation.Ask}
variable {o : Outcome Unit} {e : Envelope} {f : Relay → Outcome Unit} {relay relay' : Relay}

def envelope? (p : Proxy) (entry : RegisterKey × Message) : Option Envelope :=
  (p.register.registered? entry.1).bind (·.envelope? entry.2)

theorem envelope?_of_registered? (found : p.register.registered? key = some n) :
    p.envelope? (key, m) = n.envelope? m := by
  simp [envelope?, found]

def Signs (p : Proxy) : Prop :=
  ∀ a ∈ p.parties.directory.entries, a.isOwned = true → a.preferredFingerprint ∈ a.fingerprints

theorem envelope?_of_prepareFor (wf : p.parties.directory.WellFormed) (signs : p.Signs)
    (seated : n.Seated p.parties) (mem : actor ∈ p.parties.directory.entries)
    (ready : n.prepareFor (p.context now) actor ask =
      (.ok ⟨n.id, n.offers.length, n.status, b, m⟩, n)) :
    n.envelope? m = some ⟨b.name, m⟩ := by
  have isOwned := Negotiation.isOwned_of_prepareFor (congrArg Prod.fst ready)
  have found := Negotiation.counterpart_of_prepareFor ready
  have sender : m.sender = actor.preferredFingerprint := (Negotiation.ends_of_prepareFor ready).1
  have isFirst : n.first = actor := (Negotiation.parties_of_prepareFor wf seated.owned_mem
    seated.counter_mem seated.isCounter mem ready).1
  have known : n.partyByFingerprint m.sender = .ok actor := by
    unfold Negotiation.partyByFingerprint Negotiation.parties
    rw [sender, isFirst, List.find?_cons_of_pos]
    simpa [Party.hasFingerprint] using signs actor mem isOwned
  unfold Negotiation.envelope?
  rw [known]
  simp only [Except.toOption, Option.bind_eq_bind, Option.bind_some, isOwned, guard_true, found]
  rfl

theorem gained_eq_of_register {q q' : Proxy} (same : q.register = q'.register) :
    p.gained q = p.gained q' := by
  simp only [gained, log, same]

theorem Picks.gained_eq (picks : Picks p call p₁ h n) (standing : p.Standing)
    (takes : n.Takes p.parties (p.context call.now) m b)
    (same : p'.register = p₁.register.put h (n.apply m b)) : p.gained p' = [(n.key, m)] := by
  have put_eq : p'.register = (p₁.put h (n.apply m b)).register := same
  rw [gained_eq_of_register put_eq]
  exact (picks.enters standing takes rfl).gained_eq

theorem Performs.sent_eq (performs : Performs p call o) (standing : p.Standing) (signs : p.Signs) :
    o.sent = (p.gained o.proxy).filterMap o.proxy.envelope? := by
  have nothing : ∀ {q : Proxy}, (∀ key, q.log key = p.log key) →
      (p.gained q).filterMap q.envelope? = [] := fun same => by rw [gained_of_same same]; rfl
  cases performs with
  | idle drawn hopeless => exact (nothing fun _ => rfl).symm
  | refused picks declines refuses =>
    exact (nothing (picks.traceless standing.settled refuses.stays).log_eq).symm
  | undelivered cause picks left =>
    obtain rfl | rfl := left
    · exact (nothing fun _ => rfl).symm
    · exact (nothing (picks.traceless standing.settled (.inl rfl)).log_eq).symm
  | @sent relay order p₁ h n actor b m ask picks mem ready =>
    have gained_eq : p.gained (p₁.settle h (n.apply m b) m).proxy = [(n.key, m)] :=
      picks.gained_eq standing (.outbound actor ask mem ready) settle_eq.2.1
    have registered : (p₁.settle h (n.apply m b) m).proxy.register.registered? n.key =
        some (n.apply m b) := (picks.differs standing.settled settle_eq.2.1).at_key
    obtain ⟨sound, found, -⟩ := picks.found standing.settled.register standing.settled.lasts
    have goes : n.envelope? m = some ⟨b.name, m⟩ :=
      envelope?_of_prepareFor standing.wellFormed signs (sound.holds_of_find? found) mem ready
    rw [← Negotiation.envelope?_apply (b := b)] at goes
    rw [gained_eq]
    simp [envelope?_of_registered? registered, goes]
  | @taken relay now m p₁ h n a whom picks received =>
    generalize outcome_eq : ((p₁.settle h (n.apply m a) m).andThen fun q () =>
      q.resolveReferences relay m whom) = o'
    have register_eq : o'.proxy.register = p₁.register.put h (n.apply m a) :=
      outcome_eq ▸ settle_resolve_eq.2.1
    have sent : o'.sent = [] := outcome_eq ▸ settle_resolve_eq.2.2
    have gained_eq : p.gained o'.proxy = [(n.key, m)] :=
      picks.gained_eq standing (.inbound received) register_eq
    have registered := (picks.differs standing.settled register_eq).at_key
    have stays : (n.apply m a).envelope? m = none :=
      Negotiation.envelope?_apply.trans (Negotiation.envelope?_of_receive received)
    rw [gained_eq, sent]
    simp [envelope?_of_registered? registered, stays]

def sentAll (p : Proxy) : List Call → List Envelope
  | [] => []
  | call :: rest => (p.perform call).sent ++ sentAll (p.perform call).proxy rest

def eventsAll (p : Proxy) : List Call → List Event
  | [] => []
  | call :: rest => (p.perform call).events ++ eventsAll (p.perform call).proxy rest

theorem Ends.seats {result : Except Error Unit} (ends : Ends p call result p')
    (standing : p.Standing) (found : p.register.registered? key = some n) :
    ∃ n', p'.register.registered? key = some n' ∧ n'.first = n.first ∧ n'.second = n.second := by
  obtain ⟨-, traceless⟩ | ⟨n₀, m, b, keeps, -⟩ := ends.leaves standing.settled
  · obtain same | ⟨-, n₀, before, -, after⟩ := traceless.entry key
    · exact ⟨n, same.trans found, rfl, rfl⟩
    · obtain rfl := Option.some.inj (before.symm.trans found)
      exact ⟨_, after, rfl, rfl⟩
  · by_cases here : key = n₀.key
    · subst here
      obtain known | ⟨missing, -⟩ := keeps.stands
      · obtain rfl := Option.some.inj (known.symm.trans found)
        exact ⟨_, keeps.differs.at_key, Negotiation.first_apply, Negotiation.second_apply⟩
      · rw [missing] at found
        cases found
    · exact ⟨n, (keeps.differs.elsewhere key here).trans found, rfl, rfl⟩

theorem run_seats (standing : p.Standing) (calls : List Call)
    (found : p.register.registered? key = some n) :
    ∃ n', (p.run calls).register.registered? key = some n' ∧ n'.first = n.first ∧
      n'.second = n.second := by
  induction calls generalizing p n with
  | nil => exact ⟨n, found, rfl, rfl⟩
  | cons call rest ih =>
    obtain ⟨n₁, found₁, first_eq, second_eq⟩ :=
      (perform_ends standing.wellFormed call).seats standing found
    obtain ⟨n₂, found₂, first_eq', second_eq'⟩ := ih (perform_standing standing call) found₁
    exact ⟨n₂, found₂, first_eq'.trans first_eq, second_eq'.trans second_eq⟩

theorem Signs.perform (signs : p.Signs) (standing : p.Standing) (call : Call) :
    (p.perform call).proxy.Signs := by
  have parties_eq := (perform_ends standing.wellFormed call).basis.parties_eq
  exact fun a mem => signs a (parties_eq ▸ mem)

theorem registered_of_gained {entry : RegisterKey × Message} (mem : entry ∈ p.gained p') :
    ∃ n, p'.register.registered? entry.1 = some n := by
  obtain ⟨key, -, mem⟩ := List.mem_flatMap.1 mem
  obtain ⟨m, added, rfl⟩ := List.mem_map.1 mem
  have logged := List.mem_of_mem_drop added
  cases found : p'.register.registered? key with
  | none => simp [log, found] at logged
  | some n => exact ⟨n, rfl⟩

theorem sentAll_eq (standing : p.Standing) (signs : p.Signs) (calls : List Call) :
    p.sentAll calls = (p.history calls).filterMap (p.run calls).envelope? := by
  induction calls generalizing p with
  | nil => rfl
  | cons call rest ih =>
    have performs := perform_performs standing.wellFormed call
    have standing' := perform_standing standing call
    -- what was registered when a message was committed is so in the end, between the same parties
    have lasting : ∀ entry ∈ p.gained (p.perform call).proxy,
        (p.run (call :: rest)).envelope? entry = (p.perform call).proxy.envelope? entry := by
      intro entry mem
      obtain ⟨n, found⟩ := registered_of_gained mem
      obtain ⟨n', found', first_eq, second_eq⟩ := run_seats standing' rest found
      rw [run_cons]
      exact (envelope?_of_registered? found').trans
        ((Negotiation.envelope?_congr first_eq second_eq).trans (envelope?_of_registered? found).symm)
    rw [sentAll, history, List.filterMap_append, performs.sent_eq standing signs,
      ih standing' (signs.perform standing call), List.filterMap_congr lasting, run_cons]

theorem Course.undelivered (course : Course p order f) (sent : e ∈ (f relay).sent) :
    ∃ b : Party, b.name = e.receiver ∧ ∀ relay' cause, relay'.send e.message b = .error cause →
      (f relay').result = .error (.relay cause) := by
  cases course with
  | idle drawn hopeless eq =>
    rw [eq] at sent
    cases sent
  | refused picks declines refuses eq =>
    rw [eq] at sent
    cases sent
  | @hands _ _ _ _ _ b m ask asked picks mem ready left eq =>
    rw [eq] at sent
    unfold hand at sent
    cases taken : relay.send m b with
    | error cause =>
      rw [taken] at sent
      cases sent
    | ok u =>
      rw [taken] at sent
      obtain rfl := List.mem_singleton.1 sent
      refine ⟨b, rfl, fun relay' cause refuses => ?_⟩
      have refuses : relay'.send m b = .error cause := refuses
      rw [eq]
      unfold hand
      rw [refuses]
      rfl

end Proxy

def MemoryRelay.cutting (r : MemoryRelay) (cut : List Digest → Bool) : Relay where
  send := r.answers.send
  fetch hashes whom := if cut hashes then .error (.unreachable whom.name) else .ok (r.find hashes)

/-- A proxy, the relay it is wired to, and what its owner is about to be told: every notification is a
task of its own, which runs when the scheduler picks it. -/
structure Wired where
  proxy : Proxy
  relay : MemoryRelay
  pending : List Event

namespace Wired

variable {w : Wired} {moves : List Move}

/-- What may happen: the relay goes offline or online, a definition is published, an owner asks for
something, a message comes in, or one of the pending notifications is delivered. The relay may also be
switched between the fetches of an operation; then it is given which of them are cut. -/
inductive Move where
  | switch (offline : Bool)
  | publish (m : Message)
  | order (order : Order)
  | message (now : Instant) (m : Message) (cut : List Digest → Bool)
  | notify (i : Nat)

def call? (w : Wired) : Move → Option Call
  | .switch _ => none
  | .publish _ => none
  | .order order => some (.order w.relay.answers order)
  | .message now m cut => some (.message (w.relay.cutting cut) now m)
  | .notify _ => none

def perform (w : Wired) (call : Call) : Wired :=
  let o := w.proxy.perform call
  ⟨o.proxy, w.relay.record o.sent [], w.pending ++ o.events⟩

def notify (w : Wired) (i : Nat) : Wired :=
  match w.pending[i]? with
  | none => w
  | some event => { w with relay := w.relay.record [] [event], pending := w.pending.eraseIdx i }

def step (w : Wired) : Move → Wired
  | .switch offline => { w with relay := { w.relay with offline } }
  | .publish m => { w with relay := w.relay.publish m }
  | .order order => w.perform (.order w.relay.answers order)
  | .message now m cut => w.perform (.message (w.relay.cutting cut) now m)
  | .notify i => w.notify i

def run (w : Wired) (moves : List Move) : Wired :=
  moves.foldl step w

def calls (w : Wired) : List Move → List Call
  | [] => []
  | move :: rest => (w.call? move).toList ++ calls (w.step move) rest

def issued (w : Wired) : List Event :=
  w.relay.events ++ w.pending

/-- That the scheduler delivers the notifications in the order they were issued in. -/
def InOrder (moves : List Move) : Prop :=
  ∀ i, .notify i ∈ moves → i = 0

theorem notify_proxy (w : Wired) (i : Nat) : (w.notify i).proxy = w.proxy := by
  unfold notify
  split <;> rfl

theorem notify_outbox (w : Wired) (i : Nat) : (w.notify i).relay.outbox = w.relay.outbox := by
  unfold notify
  split
  · rfl
  · exact List.append_nil _

theorem issued_notify (w : Wired) (i : Nat) : (w.notify i).issued.Perm w.issued := by
  unfold notify issued
  split
  next => exact .refl _
  next event found =>
    obtain ⟨inside, there⟩ := List.getElem?_eq_some_iff.1 found
    have picked := List.getElem_cons_eraseIdx_perm inside
    rw [there] at picked
    simp only [MemoryRelay.record, List.append_assoc, List.singleton_append]
    exact picked.append_left _

theorem issued_notify_zero (w : Wired) : (w.notify 0).issued = w.issued := by
  unfold notify issued
  cases pending_eq : w.pending with
  | nil => simp [pending_eq]
  | cons event rest => simp [MemoryRelay.record]

theorem issued_perform (w : Wired) (call : Call) :
    (w.perform call).issued = w.issued ++ (w.proxy.perform call).events := by
  simp [perform, issued, MemoryRelay.record]

theorem notify_perform {call : Call} {event : Event} (idle : w.pending = [])
    (one : (w.proxy.perform call).events = [event]) :
    ((w.perform call).notify 0).relay.events = w.relay.events ++ [event] ∧
      ((w.perform call).notify 0).pending = [] := by
  have issued : (w.perform call).pending = [event] := by
    rw [perform, idle, one]
    rfl
  rw [notify, issued]
  exact ⟨by simp [perform, MemoryRelay.record], rfl⟩

theorem run_eq (w : Wired) (moves : List Move) :
    (w.run moves).proxy = w.proxy.run (w.calls moves) ∧
      (w.run moves).relay.outbox = w.relay.outbox ++ w.proxy.sentAll (w.calls moves) := by
  induction moves generalizing w with
  | nil => exact ⟨rfl, (List.append_nil _).symm⟩
  | cons move rest ih =>
    obtain ⟨proxy_eq, outbox_eq⟩ := ih (w.step move)
    cases move with
    | switch offline => exact ⟨proxy_eq, outbox_eq⟩
    | publish m => exact ⟨proxy_eq, outbox_eq⟩
    | order order => exact ⟨proxy_eq, outbox_eq.trans (List.append_assoc _ _ _)⟩
    | message now m cut => exact ⟨proxy_eq, outbox_eq.trans (List.append_assoc _ _ _)⟩
    | notify i =>
      have delivered : w.step (.notify i) = w.notify i := rfl
      rw [delivered, notify_proxy] at proxy_eq outbox_eq
      rw [notify_outbox] at outbox_eq
      exact ⟨proxy_eq, outbox_eq⟩

theorem run_issued (w : Wired) (moves : List Move) :
    (w.run moves).issued.Perm (w.issued ++ w.proxy.eventsAll (w.calls moves)) := by
  induction moves generalizing w with
  | nil => exact .of_eq (List.append_nil _).symm
  | cons move rest ih =>
    have later := ih (w.step move)
    cases move with
    | switch offline => exact later
    | publish m => exact later
    | order order =>
      exact later.trans (.of_eq (by rw [step, issued_perform, List.append_assoc]; rfl))
    | message now m cut =>
      exact later.trans (.of_eq (by rw [step, issued_perform, List.append_assoc]; rfl))
    | notify i =>
      rw [step, notify_proxy] at later
      exact later.trans ((w.issued_notify i).append_right _)

theorem run_issued_of_inOrder (w : Wired) (inOrder : InOrder moves) :
    (w.run moves).issued = w.issued ++ w.proxy.eventsAll (w.calls moves) := by
  induction moves generalizing w with
  | nil => exact (List.append_nil _).symm
  | cons move rest ih =>
    have later := ih (w.step move) fun i mem => inOrder i (List.mem_cons_of_mem _ mem)
    cases move with
    | switch offline => exact later
    | publish m => exact later
    | order order =>
      rw [step, issued_perform, List.append_assoc] at later
      exact later
    | message now m cut =>
      rw [step, issued_perform, List.append_assoc] at later
      exact later
    | notify i =>
      obtain rfl := inOrder i List.mem_cons_self
      rw [step, notify_proxy, issued_notify_zero] at later
      exact later

/-- That nothing has happened to a proxy and its relay, whatever was tried. -/
structure Unmoved (w w' : Wired) : Prop where
  basis : Proxy.SameBasis w.proxy w'.proxy
  register : w.proxy.register.Restored w'.proxy.register
  registered?_eq : ∀ key, w'.proxy.register.registered? key = w.proxy.register.registered? key
  bank_eq : w'.proxy.bank = w.proxy.bank
  relay_eq : w'.relay = w.relay
  pending_eq : w'.pending = w.pending

/-- Whatever is asked of a proxy and however its relay is cut off, the outbox is what the proxy
committed on behalf of its owned parties, in order, and the logs are what it committed. An order that
would be sent fails while the relay is offline, and what fails like that leaves nothing. -/
theorem outbox_is_committed {parties : List Party} {ps : Parties} {held : Settings}
    (built : ∀ a ∈ parties, ∃ s' : Settings, a.Built s')
    (made : Parties.ofList parties held = .ok ps) (templates : Templates) (s : Settings)
    (ids : Nat → NegotiationId) (moves : List Move) :
    let w₀ : Wired := ⟨.start ps templates s ids, .empty, []⟩
    let w := w₀.run moves
    let committed := w₀.proxy.history (w₀.calls moves)
    w.relay.outbox = committed.filterMap w.proxy.envelope? ∧
    (∀ key, w.proxy.log key = (committed.filter (·.1 = key)).map (·.2)) ∧
    (∀ order e, (∃ relay, e ∈ (w.proxy.carryOut relay order).sent) → w.relay.offline = true →
      (w.proxy.carryOut w.relay.answers order).result =
        .error (.relay (.unreachable e.receiver))) ∧
    ∀ call cause, (w.proxy.perform call).result = .error (.relay cause) →
      w.Unmoved (w.perform call) := by
  intro w₀ w committed
  obtain ⟨entries_eq, -, wf⟩ := Parties.ofList_eq_ok made
  have fresh : w₀.proxy.Standing := Proxy.standing_start wf
  have signs : w₀.proxy.Signs := by
    intro a mem owned
    obtain ⟨s', built⟩ := built a (entries_eq ▸ mem)
    obtain ⟨key, key_eq⟩ := Option.isSome_iff_exists.1 owned
    exact built.preferredFingerprint_mem (built.accepted_ne_nil key_eq)
  obtain ⟨proxy_eq, outbox_eq⟩ := w₀.run_eq moves
  have standing : w.proxy.Standing := by
    rw [proxy_eq]
    exact Proxy.run_standing fresh _
  refine ⟨?_, fun key => ?_, fun order e sends offline => ?_, fun call cause failed => ?_⟩
  · rw [outbox_eq, proxy_eq]
    exact Proxy.sentAll_eq fresh signs _
  · rw [proxy_eq, Proxy.run_logs fresh, Proxy.log_start, List.nil_append]
  · obtain ⟨relay, sent⟩ := sends
    obtain ⟨b, name_eq, undelivered⟩ :=
      (Proxy.carryOut_course standing.wellFormed order).undelivered sent
    refine undelivered w.relay.answers _ ?_
    simp [MemoryRelay.answers, MemoryRelay.checkOnline, offline, name_eq]
  · have vain := (Proxy.perform_performs standing.wellFormed call).vain_of_relay standing failed
    refine ⟨vain.basis, vain.register, vain.register.registered?_eq standing.settled.register,
      vain.bank_eq, ?_, ?_⟩
    · simp [perform, MemoryRelay.record, vain.sent]
    · simp [perform, vain.events]

end Wired

namespace Sample

def sellerWired : Wired := ⟨.start sellerParties templates settings fun _ => 7, .empty, []⟩

def cutOff : Wired := ⟨sellerProxy 7, { MemoryRelay.empty with offline := true }, []⟩

def openingEnvelope : Envelope := ⟨(counter "Buyer" buyerSeed).name, (offer 7).message⟩

theorem answers_empty : MemoryRelay.empty.answers = relay := by
  have nothing : MemoryRelay.empty.find = fun _ => [] := by
    funext hashes
    simp [MemoryRelay.find, MemoryRelay.empty]
  unfold MemoryRelay.answers
  rw [nothing]
  rfl

theorem opening_outbox :
    (sellerWired.run [.order (.offer now now opening)]).relay.outbox = [openingEnvelope] := by
  have calls_eq : sellerWired.calls [.order (.offer now now opening)] =
      [.order MemoryRelay.empty.answers (.offer now now opening)] := rfl
  have proxy_eq : sellerWired.proxy = sellerProxy 7 := rfl
  obtain ⟨-, outbox_eq⟩ := sellerWired.run_eq [.order (.offer now now opening)]
  rw [calls_eq, proxy_eq, answers_empty, Proxy.sentAll, Proxy.sentAll, List.append_nil,
    Proxy.perform_order, Proxy.sent_carryOut_offer, opening_sent] at outbox_eq
  exact outbox_eq

theorem opening_cut_off :
    (∀ a ∈ [owned "Seller" sellerSeed, counter "Buyer" buyerSeed],
      ∃ s' : Settings, a.Built s') ∧
    Parties.ofList [owned "Seller" sellerSeed, counter "Buyer" buyerSeed] settings =
      .ok sellerParties ∧
    (sellerWired.run [.order (.offer now now opening)]).relay.outbox = [openingEnvelope] ∧
    (sellerWired.proxy.history (sellerWired.calls [.order (.offer now now opening)])).filterMap
      (sellerWired.run [.order (.offer now now opening)]).proxy.envelope? = [openingEnvelope] ∧
    (cutOff.proxy.carryOut cutOff.relay.answers (.offer now now opening)).result =
      .error (.relay (.unreachable (counter "Buyer" buyerSeed).name)) ∧
    cutOff.Unmoved (cutOff.perform (.order cutOff.relay.answers (.offer now now opening))) := by
  have built : ∀ a ∈ [owned "Seller" sellerSeed, counter "Buyer" buyerSeed],
      ∃ s' : Settings, a.Built s' := fun a mem => ⟨settings, sellerParties_built a mem⟩
  obtain ⟨committed, -⟩ := Wired.outbox_is_committed built sellerParties_ofList templates settings
    (fun _ => 7) [.order (.offer now now opening)]
  obtain ⟨-, -, fails, leaves⟩ := Wired.outbox_is_committed built sellerParties_ofList templates
    settings (fun _ => 7) [.switch true]
  have start_eq : sellerWired.run [.switch true] = cutOff := rfl
  unfold sellerWired at start_eq
  rw [start_eq] at fails leaves
  have sent : openingEnvelope ∈ (cutOff.proxy.carryOut relay (.offer now now opening)).sent := by
    have proxy_eq : cutOff.proxy = sellerProxy 7 := rfl
    rw [proxy_eq, Proxy.sent_carryOut_offer, opening_sent]
    exact List.mem_singleton_self _
  have failed := fails (.offer now now opening) _ ⟨relay, sent⟩ rfl
  have left := leaves (.order cutOff.relay.answers (.offer now now opening)) _ failed
  exact ⟨built, sellerParties_ofList, opening_outbox, committed.symm.trans opening_outbox, failed, left⟩

end Sample

end Parley
