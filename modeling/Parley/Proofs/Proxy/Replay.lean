import Parley.Proofs.Proxy.Listing
import Parley.Proofs.Proxy.Window

namespace Parley

namespace Negotiation

variable {n n₀ n' : Negotiation} {ps : Parties} {templates : Templates} {s : Settings}
variable {ctx : UpdateContext} {m : Message} {o : Offer} {a b : Party} {now : Instant}

theorem Seated.apart (seated : n.Seated ps) (wf : ps.directory.WellFormed) :
    Directory.Apart n.first n.second := by
  refine List.Pairwise.forall wf seated.owned_mem seated.counter_mem fun same => ?_
  have owned := seated.isOwned
  rw [same, seated.isCounter] at owned
  cases owned

/-- That the last offer of a negotiation that nothing closed is from one of its parties to the other,
whose turn it is. -/
structure Turned (ps : Parties) (n : Negotiation) : Prop where
  seated : n.Seated ps
  turn : n.closing = [] → ∀ last, n.lastOffer? = some last → ∃ a b, n.Joins a b ∧
    last.offeror ∈ a.fingerprints ∧ last.receiver ∈ b.fingerprints ∧ n.active = some b.name

theorem lasts_turned (wf : ps.directory.WellFormed)
    (named : ∀ a ∈ ps.directory.entries, a.preferredFingerprint ∈ a.fingerprints) :
    Proxy.Lasts ps templates s (Turned ps) := by
  have seats : Proxy.Lasts ps templates s (Seated ps) := lasts_seated
  constructor
  case start =>
    intro id a b owned_mem isOwned counter_mem isCounter
    exact ⟨seats.start id owned_mem isOwned counter_mem isCounter, fun _ last last_eq => by cases last_eq⟩
  case notice =>
    intro n now turned
    refine ⟨seats.notice n now turned.seated, ?_⟩
    obtain ⟨status, changed⟩ := n.notice_eq_withStatus now
    rw [changed]
    exact turned.turn
  case retire =>
    intro n turned
    exact ⟨seats.retire n turned.seated, turned.turn⟩
  case take =>
    intro n now m b turned takes
    refine ⟨seats.take n now m b turned.seated takes, fun open_ last last_eq => ?_⟩
    cases m with
    | offer o =>
      obtain rfl := Option.some.inj ((lastOffer?_append o).symm.trans last_eq)
      obtain ⟨x, y, joins, sent, addressed, name_eq⟩ := takes.between turned.seated wf named
      exact ⟨x, y, by simpa [Joins] using joins, sent, addressed, congrArg some name_eq⟩
    | acceptance x => simp [apply, closing] at open_
    | rejection x => simp [apply, closing] at open_

theorem Turned.turn_iff (turned : n.Turned ps) (wf : ps.directory.WellFormed)
    (live : n.retired = false) (opened : n.offers ≠ []) (now : Instant) :
    n.checkTurn n.second .offer now = .ok () ↔ ∃ last, n.status = .offering ∧
      n.lastOffer? = some last ∧ last.offeror ∈ n.first.fingerprints ∧
      last.receiver ∈ n.second.fingerprints ∧ ¬ last.validUntil < now := by
  have apart := turned.seated.apart wf
  constructor
  · intro turn
    obtain ⟨-, ⟨initial, -⟩ | ⟨offering, lapsed, active⟩⟩ := checkTurn_eq_ok_iff.1 turn
    · exact absurd (turned.seated.unopened.1 initial) opened
    · obtain ⟨last, last_eq⟩ : ∃ last, n.lastOffer? = some last :=
        ⟨_, List.getLast?_eq_some_getLast opened⟩
      obtain ⟨a, b, joins, sent, addressed, active'⟩ :=
        turned.turn (turned.seated.unclosed (.inr offering)) last last_eq
      have name_eq : b.name = n.second.name := Option.some.inj (active'.symm.trans active)
      have running := (hasLapsed_eq_false_iff live offering last_eq).1 lapsed
      obtain ⟨rfl, rfl⟩ | ⟨rfl, rfl⟩ := joins
      · exact ⟨last, offering, last_eq, sent, addressed, running⟩
      · exact absurd name_eq apart.1
  · rintro ⟨last, offering, last_eq, -, addressed, running⟩
    have lapsed := (hasLapsed_eq_false_iff live offering last_eq).2 running
    refine checkTurn_eq_ok_iff.2 ⟨live, .inr ⟨offering, lapsed, ?_⟩⟩
    obtain ⟨a, b, joins, -, addressed', active⟩ :=
      turned.turn (turned.seated.unclosed (.inr offering)) last last_eq
    obtain ⟨rfl, rfl⟩ | ⟨rfl, rfl⟩ := joins
    · exact active
    · exact absurd addressed (apart.2 _ addressed')

theorem receive_offer_iff (received : n₀.receive ctx (.offer o) = (.ok (), n')) (id_eq : n.id = n₀.id)
    (first_eq : n.first = n₀.first) (second_eq : n.second = n₀.second) (seated : n.Seated ps)
    (now : Instant) : (∃ n'', n.receive { ctx with now } (.offer o) = (.ok (), n'')) ↔
      n.checkTurn n.second .offer now = .ok () ∧ ¬ o.validUntil < now ∧
        checkTimestamp { ctx with now } o.signature.timestamp = .ok () := by
  obtain ⟨a, b, route, checked, -⟩ := route_of_receive received
  obtain ⟨-, content, -, verified⟩ := checkInbound_eq_ok_iff.1 checked
  have route' : n.inboundRoute (.offer o) = .ok (a, b) := by
    unfold inboundRoute partyByFingerprint parties at route ⊢
    rw [id_eq, first_eq, second_eq]
    exact route
  obtain ⟨rfl, -⟩ := ends_of_route route' seated
  constructor
  · rintro ⟨n'', again⟩
    obtain ⟨c, d, route'', checked', -⟩ := route_of_receive again
    obtain rfl : n.second = c := congrArg Prod.fst (Except.ok.inj (route'.symm.trans route''))
    obtain ⟨turn, content', stamped, -⟩ := checkInbound_eq_ok_iff.1 checked'
    exact ⟨turn, (checkContent_offer_eq_ok_iff.1 content').1.2.2, stamped⟩
  · rintro ⟨turn, current, stamped⟩
    rw [checkContent_offer_eq_ok_iff] at content
    have content' : n.checkContent { ctx with now } (.offer o) = .ok () :=
      checkContent_offer_eq_ok_iff.2 ⟨⟨content.1.1, content.1.2.1, current⟩, content.2⟩
    exact ⟨_, receive_of_route route' (checkInbound_eq_ok_iff.2 ⟨turn, content', stamped, verified⟩)⟩

end Negotiation

namespace Proxy

variable {p q r : Proxy} {n : Negotiation} {key : RegisterKey} {h : Handle} {now now' : Instant}
variable {m : Message} {relay relay' : Relay} {o last : Offer} {a b : Party} {call : Call}

/-- That the offer `o`, the message `m` in the log of the negotiation `n` under a key, is committed
there once more if it comes again: it was answered with the counter-offer `last`, neither has run
out, and the signature of `m` is recent. -/
structure Renews (p : Proxy) (key : RegisterKey) (now : Instant) (m : Message) (n : Negotiation)
    (o last : Offer) : Prop where
  isOffer : m = .offer o
  known : p.register.registered? key = some n
  offering : n.status = .offering
  last_eq : n.lastOffer? = some last
  offered : last.offeror ∈ n.first.fingerprints
  addressed : last.receiver ∈ n.second.fingerprints
  running : ¬ last.validUntil < now
  current : ¬ o.validUntil < now
  timely : (m.signature.timestamp.apart now).nanoseconds ≤
    p.settings.timestampTolerance.nanoseconds

/-- That a message in the log under a key was taken there from a counter-party. -/
structure Taken (p : Proxy) (key : RegisterKey) (m : Message) (a b : Party) : Prop where
  counter : p.parties.byFingerprint .counter m.sender = .ok b
  owned : p.parties.byFingerprint .owned m.receiver = .ok a
  key_eq : key = (.of a.name b.name, m.id)
  logged : m ∈ p.log key
  received : ∃ (n : Negotiation) (t : Instant) (n' : Negotiation), n.id = m.id ∧ n.first = a ∧
    n.second = b ∧ n.receive (p.context t) m = (.ok (), n')

theorem Traceless.turn_eq {p' : Proxy} (traceless : Traceless call p p') (key : RegisterKey) :
    p'.turn key = p.turn key := by
  obtain same | ⟨-, n, before, -, after⟩ := traceless.entry key
  · simp only [turn, same]
  · rw [turn_of_registered? before, turn_of_registered? after]

theorem Standing.basis_run (standing : p.Standing) (calls : List Call) : SameBasis p (p.run calls) :=
  (run_lasts standing.wellFormed standing.settled.lasts standing.settled.register calls).1

theorem Standing.parties_eq (standing : p.Standing) (owned_mem : a ∈ p.parties.directory.entries)
    (counter_mem : b ∈ p.parties.directory.entries) (isCounter : b.isOwned = false)
    (seated : n.Seated p.parties) (pair_eq : n.pair = .of a.name b.name) :
    n.first = a ∧ n.second = b := by
  obtain ⟨first, second⟩ | ⟨first, second⟩ := PartyPair.of_eq_of_iff.1 pair_eq
  · exact ⟨standing.wellFormed.eq_of_name seated.owned_mem owned_mem first,
      standing.wellFormed.eq_of_name seated.counter_mem counter_mem second⟩
  · have same := standing.wellFormed.eq_of_name seated.owned_mem counter_mem first
    have owned := seated.isOwned
    rw [same, isCounter] at owned
    cases owned

theorem Standing.lookUp_eq_ok {p₁ : Proxy} (standing : p.Standing)
    (counter : p.parties.byFingerprint .counter m.sender = .ok b)
    (owned : p.parties.byFingerprint .owned m.receiver = .ok a)
    (looked : p.lookUp m a b = .ok ((h, n), p₁)) :
    n.key = (.of a.name b.name, m.id) ∧ n.first = a ∧ n.second = b := by
  obtain ⟨-, counter_mem, -, isCounter⟩ :=
    (Parties.byFingerprint_eq_ok_iff standing.wellFormed).1 counter
  obtain ⟨-, owned_mem, -, -⟩ := (Parties.byFingerprint_eq_ok_iff standing.wellFormed).1 owned
  obtain ⟨rfl, known⟩ | ⟨-, -, rfl, rfl, rfl⟩ := lookUp_cases looked
  · have key_eq := standing.settled.register.key_eq known
    have seated := standing.seated (Register.registered?_of_find? known)
    exact ⟨key_eq, standing.parties_eq owned_mem counter_mem
      (by simpa [Parties.Role.admits] using isCounter) seated (congrArg Prod.fst key_eq)⟩
  · exact ⟨rfl, rfl, rfl⟩

theorem taken_of_log_ne (standing : p.Standing)
    (counted : (p.receive relay now m).proxy.log key ≠ p.log key) :
    ∃ a b, Taken (p.receive relay now m).proxy key m a b := by
  have basis := (perform_ends standing.wellFormed (.message relay now m)).basis
  rw [perform_message] at basis
  obtain ⟨e, -, declined⟩ | ⟨a, b, h, n, p₁, counter, owned, looked, picks⟩ :=
    receive_course standing.wellFormed relay now m
  · rw [declined] at counted
    exact absurd rfl counted
  · obtain ⟨key_eq, first_eq, second_eq⟩ := standing.lookUp_eq_ok counter owned looked
    rw [receive_eq_take counter owned looked] at counted basis ⊢
    obtain ⟨e, n', -, traceless⟩ | ⟨c, received, register_eq⟩ := picks.take_cases standing b
    · exact absurd (traceless.log_eq key) counted
    · obtain ⟨grown, others⟩ := picks.log_put standing (.inbound received) register_eq
      have here : key = n.key := by
        by_contra ne
        exact counted (others key ne)
      subst here
      have id_eq : n.id = m.id := congrArg Prod.snd key_eq
      refine ⟨a, b, ?_, ?_, key_eq, ?_, n, now, n.apply m c, id_eq, first_eq, second_eq, ?_⟩
      · rw [basis.parties_eq]
        exact counter
      · rw [basis.parties_eq]
        exact owned
      · rw [grown]
        exact List.mem_append_right _ List.mem_cons_self
      · rw [basis.context_eq]
        exact received

theorem Taken.run (taken : Taken p key m a b) (standing : p.Standing) (calls : List Call) :
    Taken (p.run calls) key m a b where
  counter := (standing.basis_run calls).parties_eq ▸ taken.counter
  owned := (standing.basis_run calls).parties_eq ▸ taken.owned
  key_eq := taken.key_eq
  logged := by
    rw [run_logs standing calls key]
    exact List.mem_append_left _ taken.logged
  received := by
    obtain ⟨n, t, n', id_eq, first_eq, second_eq, received⟩ := taken.received
    refine ⟨n, t, n', id_eq, first_eq, second_eq, ?_⟩
    rw [(standing.basis_run calls).context_eq]
    exact received

theorem Taken.found (taken : Taken p key m a b) :
    ∃ h n, p.register.find? key = some (h, n) ∧ m ∈ n.messages := by
  have logged := taken.logged
  cases known : p.register.registered? key with
  | none =>
    rw [log, known] at logged
    cases logged
  | some n =>
    obtain ⟨h, found⟩ := Register.registered?_eq_some known
    exact ⟨h, n, found, log_of_registered? known ▸ logged⟩

theorem Taken.lookUp_eq (taken : Taken p key m a b) (found : p.register.find? key = some (h, n)) :
    p.lookUp m a b = .ok ((h, n), p) := by
  rw [taken.key_eq] at found
  unfold lookUp Register.getOrCreate Register.getBy
  split
  · simp only [found]
  · simp only [found]
    rfl

theorem Taken.receive_iff (taken : Taken p key m a b) (standing : p.Standing)
    (turned : n.Turned p.parties) (found : p.register.find? key = some (h, n)) (logged : m ∈ n.messages)
    (now : Instant) : (∃ n', n.receive (p.context now) m = (.ok (), n')) ↔
      ∃ o last, Renews p key now m n o last := by
  have known := Register.registered?_of_find? found
  obtain ⟨key_eq, first_eq, second_eq⟩ :=
    standing.lookUp_eq_ok taken.counter taken.owned (taken.lookUp_eq found)
  obtain ⟨n₀, t, n', id_eq, first_eq', second_eq', received⟩ := taken.received
  have id_eq' : n.id = n₀.id := (congrArg Prod.snd key_eq).trans id_eq.symm
  have turn_iff := turned.turn_iff standing.wellFormed (standing.unretired key n known)
    (standing.offers_ne_nil known) now
  have again_iff : ∀ o, m = .offer o → ((∃ n', n.receive (p.context now) m = (.ok (), n')) ↔
      n.checkTurn n.second .offer now = .ok () ∧ ¬ o.validUntil < now ∧
        Negotiation.checkTimestamp (p.context now) m.signature.timestamp = .ok ()) := by
    rintro o rfl
    exact Negotiation.receive_offer_iff received id_eq' (first_eq.trans first_eq'.symm)
      (second_eq.trans second_eq'.symm) turned.seated now
  constructor
  · rintro ⟨n', again⟩
    obtain ⟨c, -, -, rfl⟩ := Negotiation.receive_eq_ok again
    -- nothing closed the negotiation, so the message in its log is an offer
    have takes : n.Takes p.parties (p.context now) m c := .inbound again
    have open_ := turned.seated.unclosed.closing_eq_nil takes
    rw [Negotiation.messages, open_, List.append_nil] at logged
    obtain ⟨o, -, isOffer⟩ := List.mem_map.1 logged
    obtain ⟨turn, current, timely⟩ := (again_iff o isOffer.symm).1 ⟨_, again⟩
    obtain ⟨last, offering, last_eq, offered, addressed, running⟩ := turn_iff.1 turn
    exact ⟨o, last, isOffer.symm, known, offering, last_eq, offered, addressed, running, current,
      Negotiation.checkTimestamp_eq_ok_iff.1 timely⟩
  · rintro ⟨o, last, renews⟩
    refine (again_iff o renews.isOffer).2 ⟨turn_iff.2 ⟨last, renews.offering, renews.last_eq,
      renews.offered, renews.addressed, renews.running⟩, renews.current, ?_⟩
    exact Negotiation.checkTimestamp_eq_ok_iff.2 renews.timely

theorem Taken.again (taken : Taken p key m a b) (standing : p.Standing)
    (turned : ∀ n ∈ p.register.negotiations, n.Turned p.parties) (relay : Relay) (now : Instant) :
    (∃ n o last, Renews p key now m n o last ∧
      (p.receive relay now m).proxy.log key = p.log key ++ [m] ∧
      (p.receive relay now m).proxy.turn key = some n.first.name ∧
      ∀ k, k ≠ key → (p.receive relay now m).proxy.log k = p.log k ∧
        (p.receive relay now m).proxy.turn k = p.turn k) ∨
    ((¬ ∃ n o last, Renews p key now m n o last) ∧
      ∀ k, (p.receive relay now m).proxy.log k = p.log k ∧
        (p.receive relay now m).proxy.turn k = p.turn k) := by
  obtain ⟨h, n, found, logged⟩ := taken.found
  have looked := taken.lookUp_eq found
  obtain ⟨key_eq, -, -⟩ := standing.lookUp_eq_ok taken.counter taken.owned looked
  have known := Register.registered?_of_find? found
  have turned := turned n (Register.mem_of_registered? known)
  have receive_iff := taken.receive_iff standing turned found logged now
  have picks : Picks p (.message relay now m) p h n :=
    .known ⟨a, b, taken.owned, taken.counter, taken.key_eq⟩ found
  rw [receive_eq_take taken.counter taken.owned looked]
  obtain ⟨e, n', refused, traceless⟩ | ⟨c, received, register_eq⟩ := picks.take_cases standing b
  · refine .inr ⟨fun ⟨n₁, o, last, renews⟩ => ?_, fun k => ⟨traceless.log_eq k, traceless.turn_eq k⟩⟩
    obtain rfl := Option.some.inj (known.symm.trans renews.known)
    obtain ⟨n'', received⟩ := receive_iff.2 ⟨o, last, renews⟩
    cases refused.symm.trans received
  · obtain ⟨o, last, renews⟩ := receive_iff.1 ⟨_, received⟩
    obtain ⟨grown, others⟩ := picks.log_put standing (.inbound received) register_eq
    have differs := picks.differs standing.settled register_eq
    obtain ⟨-, -, name_eq⟩ := Negotiation.ends_of_receive received turned.seated
    have here : n.key = key := key_eq.trans taken.key_eq.symm
    subst here
    refine .inl ⟨n, o, last, renews, grown, ?_, fun k ne => ⟨others k ne, ?_⟩⟩
    · rw [turn_of_registered? differs.at_key, ← name_eq]
      cases m <;> rfl
    · simp only [turn, differs.elsewhere k ne]

theorem Reachable.then (reachable : p.Reachable) (calls : List Call) : (p.run calls).Reachable := by
  obtain ⟨parties, ps, templates, s, held, ids, before, built, made⟩ := reachable
  rw [← run_append]
  exact .run parties ps templates s held ids (before ++ calls) built made

theorem Reachable.turned (reachable : p.Reachable) :
    ∀ n ∈ p.register.negotiations, n.Turned p.parties :=
  reachable.holds (Negotiation.lasts_turned reachable.steady.wellFormed reachable.steady.named)

theorem again_cases (reachable : p.Reachable)
    (counted : (p.receive relay now m).proxy.log key ≠ p.log key) (more : List Call)
    (relay' : Relay) (now' : Instant) (r_eq : (p.receive relay now m).proxy.run more = r) :
    (∃ n o last, Renews r key now' m n o last ∧
      (r.receive relay' now' m).proxy.log key = r.log key ++ [m] ∧
      (r.receive relay' now' m).proxy.turn key = some n.first.name ∧
      ∀ k, k ≠ key → (r.receive relay' now' m).proxy.log k = r.log k ∧
        (r.receive relay' now' m).proxy.turn k = r.turn k) ∨
    ((¬ ∃ n o last, Renews r key now' m n o last) ∧
      ∀ k, (r.receive relay' now' m).proxy.log k = r.log k ∧
        (r.receive relay' now' m).proxy.turn k = r.turn k) := by
  subst r_eq
  have reached : (p.receive relay now m).proxy.Reachable := reachable.then [.message relay now m]
  obtain ⟨a, b, taken⟩ := taken_of_log_ne reachable.standing counted
  have later := reached.then more
  exact (taken.run reached.standing more).again later.standing later.turned relay' now'

/-- A message that was committed and comes again is committed once more exactly if it is an offer
that renews. Otherwise no log grows and no turn changes. -/
theorem receive_again (reachable : p.Reachable)
    (counted : (p.receive relay now m).proxy.log key ≠ p.log key) (more : List Call)
    (relay' : Relay) (now' : Instant) :
    let r := (p.receive relay now m).proxy.run more
    let s := (r.receive relay' now' m).proxy
    (∀ n o last, r.Renews key now' m n o last →
      s.log key = r.log key ++ [m] ∧ s.turn key = some n.first.name ∧
        ∀ k, k ≠ key → s.log k = r.log k ∧ s.turn k = r.turn k) ∧
    ((¬ ∃ n o last, r.Renews key now' m n o last) →
      ∀ k, s.log k = r.log k ∧ s.turn k = r.turn k) := by
  intro r s
  obtain ⟨n, o, last, renews, again⟩ | ⟨lasting, same⟩ :=
    again_cases reachable counted more relay' now' (r := r) rfl
  · refine ⟨fun n' o' last' renews' => ?_, fun lasting => absurd ⟨n, o, last, renews⟩ lasting⟩
    obtain rfl := Option.some.inj (renews.known.symm.trans renews'.known)
    exact again
  · exact ⟨fun n o last renews => absurd ⟨n, o, last, renews⟩ lasting, fun _ => same⟩

end Proxy

namespace Sample

open Negotiation

theorem start_reached : proxy.Reached :=
  proxy_reached []

theorem start_reachable : proxy.Reachable :=
  parties_reachable []

theorem offer_counts (id : NegotiationId) :
    (proxy.receive relay now (offer id).message).proxy.log (buying id).key ≠
      proxy.log (buying id).key := by
  rw [receive_offer, (offer_commits id).log_key]
  exact fun same => List.cons_ne_nil _ _ (List.append_right_eq_self.1 same)

theorem offer_renews (id : NegotiationId) : ∃ n o last, Proxy.Renews
    ((proxy.receive relay now (offer id).message).proxy.run
      [.order relay (.offer now now (answer id))]) (buying id).key now (offer id).message n o last := by
  rw [receive_offer, ← answered]
  obtain ⟨o, commits, until_eq⟩ := answer_commits id
  have key_eq : (pending id).key = (buying id).key := key_apply
  have known := commits.differs.at_key
  rw [key_eq] at known
  have running : ¬ yearEnd.canonical < now := by decide
  refine ⟨_, _, o, ⟨rfl, known, rfl, lastOffer?_append o, commits.admits.sender_mem,
    commits.admits.receiver_mem, ?_, running, ?_⟩⟩
  · rw [until_eq]
    exact running
  · rw [commits.basis.settings_eq, (offer_commits id).basis.settings_eq]
    exact checkTimestamp_eq_ok_iff.1 (offer_timely id)

theorem offer_counts_again : ¬ ∀ (p : Proxy) (relay relay' : Relay) (now now' : Instant)
    (m : Message) (key : RegisterKey) (more : List Call), p.Reached →
      (p.receive relay now m).proxy.log key ≠ p.log key →
        let r := (p.receive relay now m).proxy.run more
        let s := (r.receive relay' now' m).proxy
        s.log key = r.log key ∧ s.turn key = r.turn key := by
  intro once
  obtain ⟨n, o, last, renews⟩ := offer_renews 7
  obtain ⟨same, -⟩ := once proxy relay relay now now (offer 7).message (buying 7).key
    [.order relay (.offer now now (answer 7))] start_reached (offer_counts 7)
  obtain ⟨-, -, -, -, grown, -⟩ | ⟨lasting, -⟩ := Proxy.again_cases start_reachable
    (offer_counts 7) [.order relay (.offer now now (answer 7))] relay now rfl
  · rw [same] at grown
    exact List.cons_ne_nil _ _ (List.append_right_eq_self.1 grown.symm)
  · exact lasting ⟨n, o, last, renews⟩

theorem offer_received_again :
    let p := (proxy.receive relay now (offer 7).message).proxy.run
      [.order relay (.offer now now (answer 7))]
    let p' := (p.receive relay now (offer 7).message).proxy
    p'.log (buying 7).key = p.log (buying 7).key ++ [(offer 7).message] ∧
      ∃ n, p.register.registered? (buying 7).key = some n ∧
        p'.turn (buying 7).key = some n.first.name := by
  intro p p'
  obtain ⟨n, o, last, renews⟩ := offer_renews 7
  obtain ⟨grown, turn_eq, -⟩ := (Proxy.receive_again start_reachable (offer_counts 7)
    [.order relay (.offer now now (answer 7))] relay now).1 n o last renews
  exact ⟨grown, n, renews.known, turn_eq⟩

end Sample

end Parley
