import Parley.Proofs.Proxy.Outbox

namespace Parley

namespace Negotiation

variable {n : Negotiation} {m : Message} {b : Party}

def statuses (n : Negotiation) : List NegotiationStatus :=
  List.replicate n.offers.length .offering ++ if n.status.isTerminal then [n.status] else []

theorem statuses_apply (opens : Opens n.status m.kind) :
    (n.apply m b).statuses = n.statuses ++ [(n.apply m b).status] := by
  have running : n.status.isTerminal = false := by
    obtain ⟨initial, -⟩ | offering := opens
    · rw [initial]
      rfl
    · rw [offering]
      rfl
  unfold statuses
  rw [running]
  cases m with
  | offer o => simp [apply, NegotiationStatus.isTerminal, List.replicate_succ']
  | acceptance x => simp [apply, NegotiationStatus.isTerminal]
  | rejection x => simp [apply, NegotiationStatus.isTerminal]

theorem statuses_expired (offering : n.status = .offering) :
    { n with status := .expired }.statuses = n.statuses ++ [.expired] := by
  simp [statuses, offering, NegotiationStatus.isTerminal]

theorem lastRequest_eq_some {templates : Templates} {offer : Option OfferRequest}
    (shown : n.lastRequest templates = .ok offer) (some_offers : n.offers ≠ []) :
    ∃ r, offer = some r := by
  unfold lastRequest lastOffer? at shown
  rw [List.getLast?_eq_some_getLast some_offers] at shown
  simp only [bind_eq_ok_iff] at shown
  obtain ⟨a, -, b, -, contracts, -, shown⟩ := shown
  cases shown
  exact ⟨_, rfl⟩

end Negotiation

namespace Proxy

variable {p p' p₁ : Proxy} {n n' : Negotiation} {key : RegisterKey} {h : Handle} {m : Message}
variable {b : Party} {call : Call} {calls rest : List Call} {result : Except Error Unit}
variable {o : Outcome Unit} {told told' : List (RegisterKey × Event)}

/-- What is told of an operation, and about which key, by what it did to the register: it committed one
message to one negotiation, or it failed and the last offer of one negotiation was seen to have run
out, or it failed and did nothing. -/
inductive Reports (p p' : Proxy) : Except Error Unit → List (RegisterKey × Event) → Prop
  | committed {result : Except Error Unit} {n : Negotiation} {m : Message} {b : Party}
    {offer : OfferRequest} (stands : p.Stands n) (opens : Negotiation.Opens n.status m.kind)
    (differs : p.register.Differs p'.register n.key (some (n.apply m b)))
    (shown : (n.apply m b).lastRequest p'.templates = .ok (some offer)) :
    Reports p p' result [(n.key, ⟨n.id, some offer, (n.apply m b).status⟩)]
  | lapsed {e : Error} {n : Negotiation} {offer : OfferRequest}
    (before : p.register.registered? n.key = some n) (offering : n.status = .offering)
    (differs : p.register.Differs p'.register n.key (some { n with status := .expired }))
    (shown : n.lastRequest p'.templates = .ok (some offer)) :
    Reports p p' (.error e) [(n.key, ⟨n.id, some offer, .expired⟩)]
  | still {e : Error}
    (same : ∀ key, p'.register.registered? key = p.register.registered? key) :
    Reports p p' (.error e) []

inductive Chronicle : Proxy → List Call → List (RegisterKey × Event) → Prop
  | nil {p : Proxy} : Chronicle p [] []
  | cons {p : Proxy} {call : Call} {calls : List Call} {told told' : List (RegisterKey × Event)}
    (first : Reports p (p.perform call).proxy (p.perform call).result told)
    (rest : Chronicle (p.perform call).proxy calls told') :
    Chronicle p (call :: calls) (told ++ told')

theorem shown_of_registered (steady : p.Steady) (standing : p.Standing)
    (found : p.register.registered? key = some n) :
    ∃ offer, n.lastRequest p.templates = .ok (some offer) := by
  obtain ⟨offer, shown⟩ := (steady.register.holds n (Register.mem_of_registered? found)).shown
  obtain ⟨r, rfl⟩ := Negotiation.lastRequest_eq_some shown (standing.offers_ne_nil found)
  exact ⟨r, shown⟩

theorem Picks.settle_told (picks : Picks p call p₁ h n) (standing : p.Standing)
    (takes : n.Takes p.parties (p.context call.now) m b)
    (stored : ∀ e, (p₁.settle h (n.apply m b) m).result = .error e →
      (p₁.settle h (n.apply m b) m).proxy.Stored) {offer : OfferRequest}
    (shown : (n.apply m b).lastRequest p.templates = .ok (some offer)) :
    ∃ q, p₁.settle h (n.apply m b) m =
      ⟨.ok (), q, [], [⟨n.id, some offer, (n.apply m b).status⟩], []⟩ := by
  rw [← picks.basis.templates_eq] at shown
  obtain ⟨e, unstored, settled⟩ | ⟨_, bank, -, (⟨e, hidden, -⟩ | ⟨offer', shown', settled⟩)⟩ :=
    p₁.settle_cases h (n.apply m b) m
  · -- under one of its digests the bank has another message, though it should have this one
    have stored : (p₁.put h (n.apply m b)).Stored := by
      rw [settled] at stored
      exact stored e rfl
    have logged : m ∈ (p₁.put h (n.apply m b)).log n.key := by
      rw [picks.log_eq standing takes]
      simp
    obtain ⟨a, accepted, place, other, found, ne⟩ := Bank.store_eq_error_iff.1 ⟨e, unstored⟩
    have there := stored n.key m logged a accepted
    obtain ⟨place', found'⟩ := Bank.get?_eq_some_iff.1 there
    cases found.symm.trans found'
    exact absurd rfl ne
  · cases hidden.symm.trans shown
  · obtain rfl := Except.ok.inj (shown'.symm.trans shown)
    have id_eq : (n.apply m b).id = n.id := congrArg Prod.snd Negotiation.key_apply
    rw [settled, id_eq]
    exact ⟨_, rfl⟩

theorem Performs.reports (performs : Performs p call o) (standing : p.Standing)
    (steady' : o.proxy.Steady) (standing' : o.proxy.Standing) (stored : o.proxy.Stored)
    (basis : SameBasis p o.proxy) : ∃ told, Reports p o.proxy o.result told ∧
      o.events = told.map (·.2) := by
  have shown : ∀ key n, o.proxy.register.registered? key = some n →
      ∃ offer, n.lastRequest p.templates = .ok (some offer) := by
    intro key n found
    rw [← basis.templates_eq]
    exact shown_of_registered steady' standing' found
  have templates_eq := basis.templates_eq
  cases performs with
  | @idle _ e drawn hopeless => exact ⟨[], .still fun _ => rfl, rfl⟩
  | @refused _ p₁ h n n' e picks declines refuses =>
    obtain ⟨rfl, same⟩ | ⟨-, offering, rfl, before, differs⟩ :=
      picks.refused standing.settled refuses.stays
    · exact ⟨[], .still same, by simp [refuse]⟩
    · obtain ⟨offer, found⟩ := shown _ _ differs.at_key
      have told : p₁.event { n with status := .expired } = .ok ⟨n.id, some offer, .expired⟩ := by
        rw [event_eq, picks.basis.templates_eq, found]
        rfl
      have moved : NegotiationStatus.expired ≠ n.status := by
        rw [offering]
        decide
      refine ⟨_, .lapsed before offering differs (templates_eq ▸ found), ?_⟩
      simp [refuse, told, moved]
  | undelivered cause picks left =>
    refine ⟨[], .still fun key => ?_, rfl⟩
    obtain rfl | rfl := left
    · rfl
    · exact (picks.restored standing).registered?_eq standing.settled.register key
  | @sent relay order p₁ h n actor b m ask picks mem ready =>
    have takes : n.Takes p.parties (p.context order.now) m b := .outbound actor ask mem ready
    have differs : p.register.Differs (p₁.settle h (n.apply m b) m).proxy.register n.key
      (some (n.apply m b)) := picks.differs standing.settled settle_eq.2.1
    obtain ⟨offer, found⟩ := shown _ _ differs.at_key
    obtain ⟨q, settled⟩ := picks.settle_told standing takes (fun _ _ => stored) found
    refine ⟨_, .committed (picks.stands standing.settled.register) takes.opens differs
      (templates_eq ▸ found), ?_⟩
    simp [settled]
  | @taken relay now m p₁ h n a whom picks received =>
    have takes : n.Takes p.parties (p.context now) m a := .inbound received
    have differs : p.register.Differs ((p₁.settle h (n.apply m a) m).andThen fun q () =>
        q.resolveReferences relay m whom).proxy.register n.key (some (n.apply m a)) :=
      picks.differs standing.settled settle_resolve_eq.2.1
    obtain ⟨offer, found⟩ := shown _ _ differs.at_key
    obtain ⟨q, settled⟩ := picks.settle_told standing takes (fun e failed => by
      unfold Outcome.andThen at stored
      rw [failed] at stored
      exact stored) found
    refine ⟨_, .committed (picks.stands standing.settled.register) takes.opens differs
      (templates_eq ▸ found), ?_⟩
    have quiet := (resolveReferences_resolves relay q m whom).quiet.2
    simp [settled, Outcome.andThen, quiet]

theorem exists_chronicle (standing : p.Standing) (steady : p.Steady)
    (stored : ∀ done, done <+: calls → (p.run done).Stored) :
    ∃ told, Chronicle p calls told ∧ p.eventsAll calls = told.map (·.2) := by
  induction calls generalizing p with
  | nil => exact ⟨[], .nil, rfl⟩
  | cons call rest ih =>
    have ends := perform_ends standing.wellFormed call
    have standing' := ends.standing standing
    have steady' := ends.steady steady
    have first_stored := stored [call] (List.prefix_append [call] rest)
    obtain ⟨told, reports, events_eq⟩ := (perform_performs standing.wellFormed call).reports
      standing steady' standing' first_stored ends.basis
    obtain ⟨told', chronicle, rest_eq⟩ := ih standing' steady' fun done before =>
      stored (call :: done) (List.cons_prefix_cons.2 ⟨rfl, before⟩)
    refine ⟨told ++ told', .cons reports chronicle, ?_⟩
    rw [eventsAll, events_eq, rest_eq, List.map_append]

def statuses (p : Proxy) (key : RegisterKey) : List NegotiationStatus :=
  (p.register.registered? key).elim [] (·.statuses)

theorem statuses_of_registered? (found : p.register.registered? key = some n) :
    p.statuses key = n.statuses := by
  simp [statuses, found]

theorem statuses_of_stands (stands : p.Stands n) : p.statuses n.key = n.statuses := by
  obtain known | ⟨missing, new⟩ := stands
  · exact statuses_of_registered? known
  · rw [statuses, missing, new]
    rfl

theorem Reports.statuses_eq (reports : Reports p p' result told) (key : RegisterKey) :
    p'.statuses key = p.statuses key ++ (told.filter (·.1 = key)).map (·.2.status) := by
  cases reports with
  | @committed _ n m b offer stands opens differs shown =>
    by_cases here : key = n.key
    · subst here
      rw [statuses_of_registered? differs.at_key, statuses_of_stands stands,
        Negotiation.statuses_apply opens]
      simp
    · simp [statuses, differs.elsewhere key here, Ne.symm here]
  | @lapsed e n offer before offering differs shown =>
    by_cases here : key = n.key
    · subst here
      rw [statuses_of_registered? differs.at_key, statuses_of_registered? before,
        Negotiation.statuses_expired offering]
      simp
    · simp [statuses, differs.elsewhere key here, Ne.symm here]
  | still same => simp [statuses, same]

theorem Chronicle.statuses_eq (chronicle : Chronicle p calls told) (key : RegisterKey) :
    (p.run calls).statuses key =
      p.statuses key ++ (told.filter (·.1 = key)).map (·.2.status) := by
  induction chronicle with
  | nil => exact (List.append_nil _).symm
  | cons first rest ih =>
    rw [run_cons, ih, first.statuses_eq, List.filter_append, List.map_append, List.append_assoc]

section Beginning

variable {parties : List Party} {ps : Parties} {held : Settings}
variable (built : ∀ a ∈ parties, ∃ s' : Settings, s'.accepted ≠ [] ∧ a.Built s')
variable (made : Parties.ofList parties held = .ok ps)
variable (templates : Templates) (s : Settings) (ids : Nat → NegotiationId)

include built made

theorem stored_before
    (precise : ∀ m ∈ (start ps templates s ids).arrivals calls, m.Precise)
    (regular : ∀ call ∈ calls, call.Regular)
    (apart : s.TellsApart ((start ps templates s ids).arrivals calls ++
      ((start ps templates s ids).history calls).map (·.2)))
    {done : List Call} (before : done <+: calls) : ((start ps templates s ids).run done).Stored := by
  by_cases nothing : s.accepted = []
  · have reachable : ((start ps templates s ids).run done).Reachable :=
      .run parties ps templates s held ids done built made
    have first : (start ps templates s ids).Reachable :=
      .run parties ps templates s held ids [] built made
    intro key m logged a accepted
    rw [reachable.accepted_eq, (first.basis_run done).settings_eq] at accepted
    exact absurd accepted (nothing ▸ List.not_mem_nil)
  · have fresh : (start ps templates s ids).Fresh :=
      .start parties ps templates s held ids nothing built made
    obtain ⟨rest, rfl⟩ := before
    have arrived := (start ps templates s ids).arrivals_subset done rest
    refine fresh.stored done (fun m mem => precise m (arrived mem))
      (fun call mem => regular call (List.mem_append_left _ mem)) (apart.mono (List.append_subset.2 ⟨?_, ?_⟩))
    · exact fun m mem => List.mem_append_left _ (arrived mem)
    · rw [history_append, List.map_append]
      exact fun m mem => List.mem_append_right _ (List.mem_append_left _ mem)

end Beginning

end Proxy

/-- Whatever is asked of a proxy over a relay that may be cut off, if all that comes in is at the
precision of messages, all that its own messages say of time can be written, and digests tell apart all
that comes in and all that is committed: its owner is told once of every operation that committed a
message and once of every one that was refused and saw a last offer run out, as things stood right then,
and of no other. For every negotiation that is once per offer that it is open, and then at most once that
it is closed. The scheduler may change the order; if it delivers one notification after another, the
order is that of the operations. -/
theorem Wired.events_are_history {parties : List Party} {ps : Parties} {held : Settings}
    (built : ∀ a ∈ parties, ∃ s' : Settings, s'.accepted ≠ [] ∧ a.Built s')
    (made : Parties.ofList parties held = .ok ps) (templates : Templates) (s : Settings)
    (ids : Nat → NegotiationId) (moves : List Wired.Move) :
    let w : Wired := ⟨.start ps templates s ids, .empty, []⟩
    let calls := w.calls moves
    (∀ m ∈ w.proxy.arrivals calls, m.Precise) → (∀ call ∈ calls, call.Regular) →
    s.TellsApart (w.proxy.arrivals calls ++ (w.proxy.history calls).map (·.2)) →
    ∃ told, w.proxy.Chronicle calls told ∧
      ((w.run moves).relay.events ++ (w.run moves).pending).Perm (told.map (·.2)) ∧
      (InOrder moves → (w.run moves).relay.events ++ (w.run moves).pending = told.map (·.2)) ∧
      ∀ key, (told.filter (·.1 = key)).map (·.2.status) =
        ((w.run moves).proxy.register.registered? key).elim []
          fun n => List.replicate n.offers.length .offering ++
            if n.status.isTerminal then [n.status] else [] := by
  intro w calls precise regular apart
  have reachable : w.proxy.Reachable := .run parties ps templates s held ids [] built made
  obtain ⟨told, chronicle, events_eq⟩ := Proxy.exists_chronicle reachable.standing reachable.steady
    fun done before => Proxy.stored_before built made templates s ids precise regular apart before
  refine ⟨told, chronicle, ?_, fun inOrder => ?_, fun key => ?_⟩
  · rw [← events_eq]
    exact w.run_issued moves
  · rw [← events_eq]
    exact w.run_issued_of_inOrder inOrder
  · have nothing : w.proxy.statuses key = [] := by
      simp [w, Proxy.statuses, Proxy.start, Register.registered?_empty]
    have all := chronicle.statuses_eq key
    rw [nothing, List.nil_append] at all
    rw [(w.run_eq moves).1]
    exact all.symm

namespace Sample

def buyerWired : Wired := ⟨proxy, .empty, []⟩

def unfollowed (m : Message) : List Wired.Move := [.message now m fun _ => true, .notify 0]

theorem unfollowed_calls (m : Message) : buyerWired.calls (unfollowed m) =
    [.message (MemoryRelay.empty.cutting fun _ => true) now m] :=
  rfl

theorem unfollowed_occurs (m : Message) :
    ∀ d ∈ proxy.arrivals (buyerWired.calls (unfollowed m)) ++
      (proxy.history (buyerWired.calls (unfollowed m))).map (·.2), d = m := by
  rw [unfollowed_calls]
  exact occurs_eq fun call mem => ⟨_, List.mem_singleton.1 mem, fun whom f => by
    simp [Relay.returned, MemoryRelay.cutting]⟩

theorem unfollowed_inOrder (m : Message) : Wired.InOrder (unfollowed m) := by
  simp [Wired.InOrder, unfollowed]

theorem unfollowed_delivers {m : Message} {b : Party} {event : Event} {q : Proxy}
    (accepts : proxy.Accepts now m b event q) :
    (buyerWired.run (unfollowed m)).relay.events = [event] ∧
      (buyerWired.run (unfollowed m)).pending = [] :=
  Wired.notify_perform rfl (congrArg Outcome.events (accepts.receive_resolves _))

theorem unfollowed_told :
    (∀ a ∈ [owned "Buyer" buyerSeed, counter "Seller" sellerSeed],
      ∃ s' : Settings, s'.accepted ≠ [] ∧ a.Built s') ∧
    Parties.ofList [owned "Buyer" buyerSeed, counter "Seller" sellerSeed] settings = .ok parties ∧
    (∀ m ∈ proxy.arrivals (buyerWired.calls (unfollowed (offer 7).message)), m.Precise) ∧
    (∀ call ∈ buyerWired.calls (unfollowed (offer 7).message), call.Regular) ∧
    settings.TellsApart
      (proxy.arrivals (buyerWired.calls (unfollowed (offer 7).message)) ++
        (proxy.history (buyerWired.calls (unfollowed (offer 7).message))).map (·.2)) ∧
    Wired.InOrder (unfollowed (offer 7).message) ∧
    ∃ told event, proxy.Chronicle (buyerWired.calls (unfollowed (offer 7).message)) told ∧
      told.map (·.2) = [event] ∧
      (buyerWired.run (unfollowed (offer 7).message)).relay.events = [event] ∧
      (buyerWired.run (unfollowed (offer 7).message)).pending = [] := by
  have built : ∀ a ∈ [owned "Buyer" buyerSeed, counter "Seller" sellerSeed],
      ∃ s' : Settings, s'.accepted ≠ [] ∧ a.Built s' :=
    fun a mem => ⟨settings, by decide, parties_built a mem⟩
  have precise := offer_precise 7
  have occurs := unfollowed_occurs (offer 7).message
  obtain ⟨event, q, accepts⟩ := offer_accepts 7
  generalize (offer 7).message = m at precise occurs accepts ⊢
  have all_precise : ∀ d ∈ proxy.arrivals (buyerWired.calls (unfollowed m)), d.Precise :=
    fun d mem => occurs d (List.mem_append_left _ mem) ▸ precise
  have regular : ∀ call ∈ buyerWired.calls (unfollowed m), call.Regular := by
    simp [unfollowed_calls, Call.Regular]
  have apart : settings.TellsApart (proxy.arrivals (buyerWired.calls (unfollowed m)) ++
      (proxy.history (buyerWired.calls (unfollowed m))).map (·.2)) :=
    fun d mem d' mem' a _ _ => by rw [occurs d mem, occurs d' mem']
  obtain ⟨told, chronicle, -, inOrder, -⟩ := Wired.events_are_history built parties_ofList templates
    settings (fun i => .ofNat i) (unfollowed m) all_precise regular apart
  obtain ⟨delivered, idle⟩ := unfollowed_delivers accepts
  have told_eq : (buyerWired.run (unfollowed m)).relay.events ++
      (buyerWired.run (unfollowed m)).pending = told.map (·.2) := inOrder (unfollowed_inOrder m)
  rw [delivered, idle] at told_eq
  exact ⟨built, parties_ofList, all_precise, regular, apart, unfollowed_inOrder m, told, event,
    chronicle, told_eq.symm, delivered, idle⟩

end Sample

end Parley
