import Parley.Proofs.Proxy.Standing

namespace Parley

namespace Negotiation

variable {n : Negotiation} {ps : Parties} {ctx : UpdateContext} {m : Message} {o : Offer} {b : Party}
variable {now : Instant}

theorem running_of_checkTurn {a : Party} {kind : MessageKind}
    (turn : n.checkTurn a kind now = .ok ()) : n.status = .initial ∧ kind = .offer ∨
      n.status = .offering ∧ ∀ last, n.lastOffer? = some last → now ≤ last.validUntil := by
  obtain ⟨live, opening | ⟨offering, running, -⟩⟩ := checkTurn_eq_ok_iff.1 turn
  · exact .inl opening
  · refine .inr ⟨offering, fun last last_eq => ?_⟩
    exact (hasLapsed_eq_false_iff live offering last_eq).1 running

theorem Takes.running (takes : n.Takes ps ctx m b) : n.status = .initial ∧ m.kind = .offer ∨
    n.status = .offering ∧ ∀ last, n.lastOffer? = some last → ctx.now ≤ last.validUntil := by
  cases takes with
  | inbound received =>
    obtain ⟨a, -, -, checked, -⟩ := route_of_receive received
    exact running_of_checkTurn (checkInbound_eq_ok_iff.1 checked).1
  | outbound actor ask mem ready =>
    obtain ⟨-, -, turn⟩ := prepareFor_eq_ok ready
    exact running_of_checkTurn turn

theorem Takes.current (takes : n.Takes ps ctx (.offer o) b) : ctx.now ≤ o.validUntil := by
  cases takes with
  | inbound received =>
    obtain ⟨-, -, content⟩ := sides_of_receive received
    exact (checkContent_offer_eq_ok_iff.1 content).1.2.2
  | outbound actor ask mem ready =>
    obtain ⟨-, -, -, current⟩ := offer_of_prepareFor ready rfl
    exact current

theorem Takes.names {last : Offer} {h : Digest} (takes : n.Takes ps ctx m b)
    (last_eq : n.lastOffer? = some last) (hash_eq : m.offerHash? = some h) :
    h.verifies (Message.offer last).canonicalBytes = true := by
  have named : ∃ last, n.lastOffer? = some last ∧
      h.verifies (Message.offer last).canonicalBytes = true := by
    cases takes with
    | inbound received =>
      obtain ⟨-, -, content⟩ := sides_of_receive received
      cases m with
      | offer o => cases hash_eq
      | acceptance x =>
        cases hash_eq
        exact (checkOfferHash_eq_ok_iff.1 content).2
      | rejection x =>
        cases hash_eq
        exact (checkOfferHash_eq_ok_iff.1 content).2
    | outbound actor ask mem ready =>
      obtain ⟨key, draft, -, drafts, signed⟩ := drafts_of_prepareFor ready
      dsimp only at signed
      rw [signed] at hash_eq
      cases drafts with
      | offer known valid => cases hash_eq
      | acceptance named =>
        cases hash_eq
        obtain ⟨last, last_eq, rfl⟩ := offerHash_eq_ok named
        exact ⟨last, last_eq, (Digest.verifies_iff _ _).2 rfl⟩
      | rejection named =>
        cases hash_eq
        obtain ⟨last, last_eq, rfl⟩ := offerHash_eq_ok named
        exact ⟨last, last_eq, (Digest.verifies_iff _ _).2 rfl⟩
  obtain ⟨last', last_eq', verifies⟩ := named
  obtain rfl := Option.some.inj (last_eq'.symm.trans last_eq)
  exact verifies

theorem status_apply_ne_expired : (n.apply m b).status ≠ .expired := by
  cases m <;> rintro ⟨⟩

end Negotiation

namespace Proxy

variable {p p' p₁ : Proxy} {n n' : Negotiation} {key : RegisterKey} {h : Handle} {now : Instant}
variable {m : Message} {b : Party} {call : Call} {o : Outcome Unit}

/-- That a message may be committed under a key when the clock shows what it does: it is an offer that
opens a negotiation, or it answers the last offer while that runs, which it names if it closes the
negotiation. An offer has not run out itself. -/
inductive InTime (p : Proxy) (now : Instant) (key : RegisterKey) : Message → Prop
  | opening {o : Offer} (missing : p.register.registered? key = none)
    (current : now ≤ o.validUntil) : InTime p now key (.offer o)
  | answer {n : Negotiation} {last : Offer} {m : Message}
    (known : p.register.registered? key = some n) (offering : n.status = .offering)
    (last_eq : n.lastOffer? = some last) (running : now ≤ last.validUntil)
    (names : ∀ h, m.offerHash? = some h → h.verifies (Message.offer last).canonicalBytes = true)
    (current : ∀ o, m = .offer o → now ≤ o.validUntil) : InTime p now key m

/-- That an operation found the last offer of a negotiation to have run out, says so, and did nothing
else. -/
structure RunsOut (p : Proxy) (call : Call) (o : Outcome Unit) (n : Negotiation) : Prop where
  named : call.Names p n.key
  known : p.register.registered? n.key = some n
  offering : n.status = .offering
  late : ∃ last, n.lastOffer? = some last ∧ last.validUntil < call.now
  left : p.register.Differs o.proxy.register n.key (some { n with status := .expired })
  failed : ∃ reason, o.result = .error (.badRequest .negotiationExpired reason)
  logs : ∀ key, o.proxy.log key = p.log key
  bank_eq : o.proxy.bank = p.bank
  sent : o.sent = []

/-- That an operation keeps to the ends of the offers, as its reading of the clock has them. -/
structure Punctual (p : Proxy) (call : Call) (o : Outcome Unit) : Prop where
  commits : ∀ key, o.proxy.log key = p.log key ∨
    ∃ m, InTime p call.now key m ∧ o.proxy.log key = p.log key ++ [m]
  expires : ∀ key n', o.proxy.register.registered? key = some n' → n'.status = .expired →
    p.register.registered? key = some n' ∨
      ∃ n, n.key = key ∧ n' = { n with status := .expired } ∧ RunsOut p call o n
  stays : ∀ key n, p.register.registered? key = some n → n.status = .expired →
    o.proxy.register.registered? key = some n

theorem punctual_of_same
    (same : ∀ key, o.proxy.register.registered? key = p.register.registered? key) :
    Punctual p call o where
  commits key := .inl (by simp only [log, same])
  expires key n' found _ := .inl ((same key).symm.trans found)
  stays key n found _ := (same key).trans found

theorem Standing.inTime (standing : p.Standing) (stands : p.Stands n)
    (takes : n.Takes p.parties (p.context now) m b) : InTime p now n.key m := by
  have current : ∀ o, m = .offer o → now ≤ o.validUntil := by
    rintro o rfl
    exact takes.current
  obtain known | ⟨missing, new⟩ := stands
  -- what is registered has an offer, so that nothing opens it once more
  · have opened := standing.offers_ne_nil known
    obtain ⟨last, last_eq⟩ : ∃ last, n.lastOffer? = some last :=
      ⟨_, List.getLast?_eq_some_getLast opened⟩
    obtain ⟨initial, -⟩ | ⟨offering, running⟩ := takes.running
    · exact absurd ((standing.seated known).unopened.1 initial) opened
    · exact .answer known offering last_eq (running last last_eq)
        (fun _ => takes.names last_eq) current
  · obtain ⟨-, opening⟩ | ⟨offering, -⟩ := takes.running
    · cases m with
      | offer o => exact .opening missing (current o rfl)
      | acceptance x => cases opening
      | rejection x => cases opening
    · rw [new] at offering
      cases offering

theorem Picks.log_put (picks : Picks p call p₁ h n) (standing : p.Standing)
    (takes : n.Takes p.parties (p.context call.now) m b)
    (same : p'.register = p₁.register.put h (n.apply m b)) :
    p'.log n.key = p.log n.key ++ [m] ∧ ∀ key, key ≠ n.key → p'.log key = p.log key := by
  have differs := picks.differs standing.settled same
  refine ⟨?_, fun key ne => by simp only [log, differs.elsewhere key ne]⟩
  rw [← picks.log_eq standing takes]
  exact log_eq_of_register same n.key

theorem Picks.punctual (picks : Picks p call p₁ h n) (standing : p.Standing)
    (takes : n.Takes p.parties (p.context call.now) m b)
    (same : o.proxy.register = p₁.register.put h (n.apply m b)) : Punctual p call o := by
  have differs := picks.differs standing.settled same
  have stands := picks.stands standing.settled.register
  obtain ⟨grown, others⟩ := picks.log_put standing takes same
  constructor
  case commits =>
    intro key
    by_cases here : key = n.key
    · subst here
      exact .inr ⟨m, standing.inTime stands takes, grown⟩
    · exact .inl (others key here)
  case expires =>
    intro key n' found expired
    obtain ⟨-, rfl⟩ | ⟨-, before⟩ := differs.cases found
    · exact absurd expired Negotiation.status_apply_ne_expired
    · exact .inl before
  case stays =>
    intro key n' found expired
    by_cases here : key = n.key
    · subst here
      obtain known | ⟨missing, -⟩ := stands
      · obtain rfl := Option.some.inj (known.symm.trans found)
        obtain ⟨initial, -⟩ | ⟨offering, -⟩ := takes.running
        · cases expired.symm.trans initial
        · cases expired.symm.trans offering
      · rw [missing] at found
        cases found
    · exact (differs.elsewhere key here).trans found

theorem Picks.runsOut {reason : String} (picks : Picks p call p₁ h n) (standing : p.Standing)
    (lapsed : n.hasLapsed call.now = true) : RunsOut p call
      (p₁.refuse h n { n with status := .expired } (.badRequest .negotiationExpired reason)) n := by
  have settled := standing.settled
  obtain ⟨live, offering, late⟩ := Negotiation.hasLapsed_iff.1 lapsed
  obtain ⟨last, last_eq, late⟩ := (Option.any_eq_true _ _).1 late
  have stays : n.Stays call.now { n with status := .expired } :=
    (Negotiation.Refuses.lapsed reason lapsed).stays
  have traceless := picks.traceless settled stays
  obtain ⟨same, -⟩ | ⟨named, -, -, known, differs⟩ := picks.refused settled stays
  · have running : NegotiationStatus.expired = n.status := congrArg Negotiation.status same
    cases running.trans offering
  · exact {
      named, known, offering
      late := ⟨last, last_eq, of_decide_eq_true late⟩
      left := differs
      failed := ⟨reason, rfl⟩
      logs := traceless.log_eq
      bank_eq := traceless.bank_eq
      sent := rfl }

theorem RunsOut.punctual (out : RunsOut p call o n) : Punctual p call o where
  commits key := .inl (out.logs key)
  expires key n' found expired := by
    obtain ⟨rfl, rfl⟩ | ⟨-, before⟩ := out.left.cases found
    · exact .inr ⟨n, rfl, rfl, out⟩
    · exact .inl before
  stays key n' found expired := by
    by_cases here : key = n.key
    · subst here
      obtain rfl := Option.some.inj (found.symm.trans out.known)
      cases expired.symm.trans out.offering
    · exact (out.left.elsewhere key here).trans found

theorem Performs.punctual (performs : Performs p call o) (standing : p.Standing) :
    Punctual p call o := by
  cases performs with
  | idle drawn hopeless => exact punctual_of_same fun _ => rfl
  | refused picks declines refuses =>
    cases refuses with
    | still =>
      exact punctual_of_same ((picks.restored standing).registered?_eq standing.settled.register)
    | lapsed reason lapsed => exact (picks.runsOut standing lapsed).punctual
  | undelivered cause picks left =>
    obtain rfl | rfl := left
    · exact punctual_of_same fun _ => rfl
    · exact punctual_of_same ((picks.restored standing).registered?_eq standing.settled.register)
  | sent ask picks mem ready =>
    exact picks.punctual standing (.outbound _ ask mem ready) settle_eq.2.1
  | taken whom picks received =>
    exact picks.punctual standing (.inbound received) settle_resolve_eq.2.1

theorem perform_punctual (standing : p.Standing) (call : Call) : Punctual p call (p.perform call) :=
  (perform_performs standing.wellFormed call).punctual standing

theorem run_expired (standing : p.Standing) (expired : n.status = .expired) (calls : List Call)
    (known : p.register.registered? key = some n) :
    (p.run calls).register.registered? key = some n := by
  induction calls generalizing p with
  | nil => exact known
  | cons call rest ih =>
    exact ih (perform_standing standing call)
      ((perform_punctual standing call).stays key n known expired)

theorem run_inTime (standing : p.Standing) (fresh : p.log key = []) {calls : List Call}
    {earlier later : List Message} (logged : (p.run calls).log key = earlier ++ m :: later) :
    ∃ done call rest, calls = done ++ call :: rest ∧ (p.run done).log key = earlier ∧
      InTime (p.run done) call.now key m := by
  induction calls using List.reverseRecOn generalizing later with
  | nil =>
    rw [run_nil, fresh] at logged
    simp at logged
  | append_singleton calls call ih =>
    have punctual := perform_punctual (run_standing standing calls) call
    have step : (p.run (calls ++ [call])).log key = ((p.run calls).perform call).proxy.log key := by
      rw [run_append, run_cons, run_nil]
    -- the message is the last one, or it was there before
    have before : ∀ later, (p.run calls).log key = earlier ++ m :: later →
        ∃ done c rest, calls ++ [call] = done ++ c :: rest ∧ (p.run done).log key = earlier ∧
          InTime (p.run done) c.now key m := by
      intro later logged
      obtain ⟨done, c, rest, rfl, earlier_eq, inTime⟩ := ih logged
      exact ⟨done, c, rest ++ [call], by simp, earlier_eq, inTime⟩
    rw [step] at logged
    obtain same | ⟨m', inTime, grown⟩ := punctual.commits key
    · exact before later (same.symm.trans logged)
    · rw [grown] at logged
      obtain rfl | ⟨others, x, rfl⟩ := List.eq_nil_or_concat later
      · obtain ⟨earlier_eq, last_eq⟩ := List.append_inj' logged rfl
        obtain rfl := List.singleton_inj.1 last_eq
        exact ⟨calls, call, [], rfl, earlier_eq, inTime⟩
      · refine before others ?_
        rw [List.concat_eq_append, ← List.cons_append, ← List.append_assoc] at logged
        exact (List.append_inj' logged rfl).1

/-- Whatever the clock shows from one operation to the next, in a proxy that started with nothing
registered: every message in a log was committed in time, every operation keeps to the ends of the
offers, and what has run out stays so. -/
theorem offers_run_out {parties : List Party} {ps : Parties} {held : Settings}
    (made : Parties.ofList parties held = .ok ps) (templates : Templates) (s : Settings)
    (ids : Nat → NegotiationId) (calls : List Call) :
    let q := start ps templates s ids
    let p := q.run calls
    (∀ (key : RegisterKey) (earlier : List Message) (m : Message) (later : List Message),
      p.log key = earlier ++ m :: later →
        ∃ done call rest, calls = done ++ call :: rest ∧ (q.run done).log key = earlier ∧
          InTime (q.run done) call.now key m) ∧
    (∀ call, Punctual p call (p.perform call)) ∧
    ∀ (key : RegisterKey) (n : Negotiation), p.register.registered? key = some n →
      n.status = .expired → ∀ more, (p.run more).register.registered? key = some n := by
  intro q p
  have started : q.Standing := standing_start (Parties.ofList_eq_ok made).2.2
  have standing : p.Standing := run_standing started calls
  exact ⟨fun key earlier m later logged => run_inTime started (log_start key) logged,
    perform_punctual standing,
    fun key n known expired more => run_expired standing expired more known⟩

end Proxy

namespace Sample
open Negotiation

theorem tooLate_leaves : ((offered 7).perform tooLate).proxy.register.registered? (pending 7).key =
    some { pending 7 with status := .expired } := by
  obtain ⟨h, reason, found, refused⟩ := tooLate_refused
  have steady := (parties_reachable [.message relay now (offer 7).message]).steady
  have picks : Proxy.Picks (offered 7) tooLate (offered 7) h (pending 7) :=
    .known (by rw [tooLate, ← buyer_name, ← seller_name]; rfl) found
  have stays := (Refuses.lapsed (n := pending 7) reason (pending_lapsed 7)).stays
  rw [refused]
  obtain ⟨same, -⟩ | ⟨-, -, -, -, differs⟩ := picks.refused steady.settled stays
  · cases congrArg Negotiation.status same
  · exact differs.at_key

theorem run_tooLate : proxy.run [.message relay now (offer 7).message, tooLate] =
    ((offered 7).perform tooLate).proxy := by
  rw [offered, Proxy.run_cons, Proxy.run_cons, Proxy.run_cons, Proxy.run_nil, Proxy.run_nil]

theorem late_for_good :
    Parties.ofList [owned "Buyer" buyerSeed, counter "Seller" sellerSeed] settings = .ok parties ∧
    ((offered 7).log (pending 7).key = [] ++ (offer 7).message :: [] ∧
      ∃ done call rest, [.message relay now (offer 7).message] = done ++ call :: rest ∧
        (proxy.run done).log (pending 7).key = [] ∧
        Proxy.InTime (proxy.run done) call.now (pending 7).key (offer 7).message) ∧
    Proxy.RunsOut (offered 7) tooLate ((offered 7).perform tooLate) (pending 7) ∧
    (((offered 7).perform tooLate).proxy.accept relay now
      ⟨7, "Buyer", "Seller"⟩).proxy.register.registered? (pending 7).key =
        some { pending 7 with status := .expired } := by
  have logged : (offered 7).log (pending 7).key = [] ++ (offer 7).message :: [] :=
    Proxy.log_of_registered? (offered_known 7)
  obtain ⟨inTime, punctual, -⟩ := Proxy.offers_run_out parties_ofList templates settings
    (fun i => .ofNat i) [.message relay now (offer 7).message]
  obtain ⟨-, -, stays⟩ := Proxy.offers_run_out parties_ofList templates settings
    (fun i => .ofNat i) [.message relay now (offer 7).message, tooLate]
  rw [← proxy, ← offered] at inTime punctual
  rw [← proxy, run_tooLate] at stays
  have expired : { pending 7 with status := .expired }.status = .expired := rfl
  refine ⟨parties_ofList, ⟨logged, inTime _ _ _ _ logged⟩, ?_, ?_⟩
  · obtain known | ⟨n, key_eq, -, out⟩ := (punctual tooLate).expires _ _ tooLate_leaves expired
    · cases congrArg Negotiation.status (Option.some.inj (known.symm.trans (offered_known 7)))
    · have known := out.known
      rw [key_eq] at known
      obtain rfl := Option.some.inj (known.symm.trans (offered_known 7))
      exact out
  · have after := stays _ _ tooLate_leaves expired [.order relay (.accept now ⟨7, "Buyer", "Seller"⟩)]
    rw [Proxy.run_cons, Proxy.run_nil, Proxy.perform_order, Proxy.carryOut_accept] at after
    exact after

end Sample

end Parley
