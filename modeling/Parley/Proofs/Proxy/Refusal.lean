import Parley.Proofs.Proxy.Closing
import Parley.Proofs.Proxy.Ending
import Parley.Proofs.Proxy.Log
import Parley.Proofs.Template

namespace Parley

theorem Templates.showContract_eq_ok {ts : Templates} {c : Contract} {t : Template}
    (fits : ts.validate c = .ok t) :
    Negotiation.showContract ts c = .ok ⟨t.name, c.arguments⟩ := by
  unfold Negotiation.showContract
  rw [(Templates.validate_eq_ok fits).1]

namespace Message

variable {o : Offer} {t : Instant}

theorem canonicalBytes_until (same : t.canonical = o.validUntil.canonical) :
    (Message.offer { o with validUntil := t }).canonicalBytes = (Message.offer o).canonicalBytes := by
  have text_eq : t.text = o.validUntil.text := by
    rw [← t.text_canonical, same, o.validUntil.text_canonical]
  simp only [canonicalBytes, canonicalText, members, Offer.members, Instant.toJson, text_eq]

theorem signingBytes_until (same : t.canonical = o.validUntil.canonical) :
    (Message.offer { o with validUntil := t }).signingBytes = (Message.offer o).signingBytes :=
  canonicalBytes_until (o := { o with signature := { o.signature with sum := none } }) same

end Message

namespace Negotiation

variable {n n' : Negotiation} {ps : Parties} {templates : Templates} {s : Settings}
variable {ctx ctx' : UpdateContext} {m : Message} {o : Offer} {a b p q : Party} {h : Digest}
variable {now t : Instant} {kind : MessageKind} {e : Error}

/-- That the two parties of a negotiation are known and its last offer can be shown to the owner. -/
structure Shown (ps : Parties) (templates : Templates) (n : Negotiation) : Prop where
  first_mem : n.first ∈ ps.directory.entries
  second_mem : n.second ∈ ps.directory.entries
  shown : ∃ offer, n.lastRequest templates = .ok offer

theorem partyByFingerprint_of_mem (mem : a ∈ n.parties) (print : h ∈ a.fingerprints) :
    ∃ b, n.partyByFingerprint h = .ok b := by
  unfold partyByFingerprint
  cases found : n.parties.find? (·.hasFingerprint h) with
  | some b => exact ⟨b, rfl⟩
  | none =>
    have missing := List.find?_eq_none.1 found a mem
    simp [Party.hasFingerprint, print] at missing

theorem lastRequest_of_offer (last_eq : n.lastOffer? = some o)
    (sender : ∃ a, n.partyByFingerprint o.offeror = .ok a)
    (receiver : ∃ b, n.partyByFingerprint o.receiver = .ok b)
    (known : ∀ c ∈ o.contracts, ∃ t, templates.validate c = .ok t) :
    ∃ r, n.lastRequest templates = .ok (some r) := by
  obtain ⟨a, sender_eq⟩ := sender
  obtain ⟨b, receiver_eq⟩ := receiver
  have each : ∀ c ∈ o.contracts, ∃ shown, showContract templates c = .ok shown := by
    intro c mem
    obtain ⟨t, fits⟩ := known c mem
    exact ⟨_, Templates.showContract_eq_ok fits⟩
  obtain ⟨shown, contracts_eq, -⟩ := mapM_eq_ok each
  unfold lastRequest
  simp only [last_eq, sender_eq, receiver_eq, contracts_eq, bind, Except.bind, pure, Except.pure]
  exact ⟨_, rfl⟩

theorem Shown.withStatus (shown : n.Shown ps templates) (status : NegotiationStatus)
    (retired : Bool) : { n with status, retired }.Shown ps templates :=
  ⟨shown.first_mem, shown.second_mem, shown.shown⟩

theorem shown_start (id : NegotiationId) (first_mem : a ∈ ps.directory.entries)
    (second_mem : b ∈ ps.directory.entries) : (start id a b).Shown ps templates :=
  ⟨first_mem, second_mem, none, rfl⟩

theorem sides_of_receive (received : n.receive ctx m = (.ok (), n')) :
    (∃ a, n.partyByFingerprint m.sender = .ok a) ∧ (∃ b, n.partyByFingerprint m.receiver = .ok b) ∧
      n.checkContent ctx m = .ok () := by
  obtain ⟨a, b, route, checked, -⟩ := route_of_receive received
  obtain ⟨-, sender, receiver, -⟩ := inboundRoute_eq_ok route
  exact ⟨⟨a, sender⟩, ⟨b, receiver⟩, (checkInbound_eq_ok_iff.1 checked).2.1⟩

theorem offer_of_prepareFor {ask : Ask} {prepared : Prepared}
    (ready : n.prepareFor ctx a ask = (.ok prepared, n')) (isOffer : prepared.message = .offer o) :
    o.offeror = a.preferredFingerprint ∧ o.receiver = prepared.receiver.preferredFingerprint ∧
      (∀ c ∈ o.contracts, ∃ t, ctx.templates.validate c = .ok t) ∧ ctx.now ≤ o.validUntil := by
  obtain ⟨key, m, -, drafts, signed⟩ := drafts_of_prepareFor ready
  cases drafts with
  | offer known valid =>
    obtain rfl := Message.offer.inj (isOffer.symm.trans signed)
    exact ⟨rfl, rfl, Templates.forM_validate_eq_ok_iff.1 known, (checkTerms_eq_ok_iff.1 valid).2.2⟩
  | acceptance named => cases isOffer.symm.trans signed
  | rejection named => cases isOffer.symm.trans signed

theorem Shown.offer (shown : n.Shown ps templates) (wf : ps.directory.WellFormed)
    (named : ∀ a ∈ ps.directory.entries, a.preferredFingerprint ∈ a.fingerprints)
    (takes : n.Takes ps ⟨templates, s, now⟩ (.offer o) b) :
    ∃ r, (n.apply (.offer o) b).lastRequest templates = .ok (some r) := by
  cases takes with
  | inbound received =>
    obtain ⟨sender, receiver, content⟩ := sides_of_receive received
    obtain ⟨-, known⟩ := checkContent_offer_eq_ok_iff.1 content
    exact lastRequest_of_offer (lastOffer?_append o) sender receiver
      (Templates.forM_validate_eq_ok_iff.1 known)
  | outbound actor ask mem ready =>
    obtain ⟨sender_eq, receiver_eq, known, -⟩ := offer_of_prepareFor ready rfl
    have sides : actor ∈ n.parties ∧ b ∈ n.parties ∧ b ∈ ps.directory.entries := by
      obtain ⟨name_eq, rfl⟩ | ⟨name_eq, rfl⟩ :=
        counterpartOf_eq_ok (counterpart_of_prepareFor ready)
      · rw [← wf.eq_of_name shown.first_mem mem name_eq]
        exact ⟨by simp [parties], by simp [parties], shown.second_mem⟩
      · rw [← wf.eq_of_name shown.second_mem mem name_eq]
        exact ⟨by simp [parties], by simp [parties], shown.first_mem⟩
    refine lastRequest_of_offer (lastOffer?_append o) ?_ ?_ known
    · exact partyByFingerprint_of_mem sides.1 (sender_eq ▸ named actor mem)
    · exact partyByFingerprint_of_mem sides.2.1 (receiver_eq ▸ named b sides.2.2)

theorem lasts_shown (wf : ps.directory.WellFormed)
    (named : ∀ a ∈ ps.directory.entries, a.preferredFingerprint ∈ a.fingerprints) :
    Proxy.Lasts ps templates s fun n => n.Shown ps templates where
  start id a b owned_mem _ counter_mem _ := shown_start id owned_mem counter_mem
  notice n now shown := by
    obtain ⟨status, changed⟩ := n.notice_eq_withStatus now
    rw [changed]
    exact shown.withStatus status n.retired
  retire n shown := shown.withStatus n.status true
  take n now m b shown takes := by
    refine ⟨by simpa using shown.first_mem, by simpa using shown.second_mem, ?_⟩
    cases m with
    | offer o =>
      obtain ⟨r, shown'⟩ := shown.offer wf named takes
      exact ⟨some r, shown'⟩
    | acceptance x => exact shown.shown
    | rejection x => exact shown.shown

theorem isPristine_stays (stays : n.Stays now n') : n'.isPristine = n.isPristine := by
  obtain rfl | rfl := stays
  · rfl
  · unfold notice
    split
    next lapsed =>
      unfold isPristine
      rw [(hasLapsed_iff.1 lapsed).2.1]
      rfl
    · rfl

theorem Stays.eq_or_expired (stays : n.Stays now n') :
    n' = n ∨ n.status = .offering ∧ n' = { n with status := .expired } := by
  obtain rfl | rfl := stays
  · exact .inl rfl
  · unfold notice
    split
    next lapsed => exact .inr ⟨(hasLapsed_iff.1 lapsed).2.1, rfl⟩
    · exact .inl rfl

theorem Admits.again (admits : n.Admits ctx a b (.offer o)) (id_eq : n'.id = n.id)
    (templates_eq : ctx'.templates = ctx.templates) (settings_eq : ctx'.settings = ctx.settings)
    (turn : n'.checkTurn a .offer ctx'.now = .ok ()) (current : ¬ o.validUntil < ctx'.now) :
    n'.Admits ctx' a b (.offer o) where
  id_eq := admits.id_eq.trans id_eq.symm
  sender_mem := admits.sender_mem
  receiver_mem := admits.receiver_mem
  turn := turn
  content := by
    have content := admits.content
    rw [checkContent_offer_eq_ok_iff] at content ⊢
    rw [templates_eq]
    exact ⟨⟨content.1.1, content.1.2.1, current⟩, content.2⟩
  verified := by
    rw [settings_eq]
    exact admits.verified

theorem Admits.until (admits : n.Admits ctx a b (.offer o)) (same : t.canonical = o.validUntil.canonical)
    (order : ¬ t < o.validAfter) (current : ¬ t < ctx.now) :
    n.Admits ctx a b (.offer { o with validUntil := t }) where
  id_eq := admits.id_eq
  sender_mem := admits.sender_mem
  receiver_mem := admits.receiver_mem
  turn := admits.turn
  content := by
    have content := admits.content
    rw [checkContent_offer_eq_ok_iff] at content ⊢
    exact ⟨⟨content.1.1, order, current⟩, content.2⟩
  verified := by
    rw [Message.signingBytes_until same]
    exact admits.verified

theorem Sides.prepare_eq_error {draft : Party → SignatureScheme → Except Error Message}
    (sides : n.Sides ctx.settings p q) (turn : n.checkTurn p kind ctx.now = .error e) :
    n.prepare ctx p kind draft = (.error e, n.notice ctx.now) := by
  obtain ⟨key, owned⟩ := Option.isSome_iff_exists.1 sides.isOwned
  unfold prepare
  simp only [sides.counterpartOf_eq, Party.ownedKey_eq_ok_iff.2 owned, turn, bind, Except.bind, pure,
    Except.pure]

end Negotiation

namespace Proxy

variable {p p' p₁ : Proxy} {n n' : Negotiation} {key : RegisterKey} {h : Handle} {now : Instant}
variable {m : Message} {a b : Party} {call : Call} {result : Except Error Unit} {relay : Relay}
variable {e : Error} {P : Negotiation → Prop}

/-- That something which lasts holds of every negotiation there is or was, and that something was
committed to every one that is registered. -/
structure Settled (P : Negotiation → Prop) (p : Proxy) : Prop where
  lasts : Lasts p.parties p.templates p.settings P
  register : p.register.Sound P
  live : ∀ key n, p.register.registered? key = some n → n.isPristine = false

/-- What holds of any proxy between two operations. -/
structure Steady (p : Proxy) : Prop where
  wellFormed : p.parties.directory.WellFormed
  named : ∀ a ∈ p.parties.directory.entries, a.preferredFingerprint ∈ a.fingerprints
  register : p.register.Sound (Negotiation.Shown p.parties p.templates)
  live : ∀ key n, p.register.registered? key = some n → n.isPristine = false
  placed : p.bank.Placed

/-- That an operation left nothing but that the negotiation it names may have run out. -/
structure Traceless (call : Call) (p p' : Proxy) : Prop where
  basis : SameBasis p p'
  bank_eq : p'.bank = p.bank
  entry : ∀ key, p'.register.registered? key = p.register.registered? key ∨
    call.Names p key ∧ ∃ n, p.register.registered? key = some n ∧ n.status = .offering ∧
      p'.register.registered? key = some { n with status := .expired }

/-- That an operation left one message in the log of one negotiation, which it may have opened, and
stored it with what it refers to, if it could be stored, and nothing else. -/
structure Keeps (call : Call) (p p' : Proxy) (n : Negotiation) (m : Message) (b : Party) : Prop where
  basis : SameBasis p p'
  said : call.Says m
  stands : p.Stands n
  differs : p.register.Differs p'.register n.key (some (n.apply m b))
  stores : (p'.bank = p.bank ∧ ∃ e, p.bank.add m = .error e) ∨ p.bank.Stores m p'.bank

theorem Steady.lasts (steady : p.Steady) :
    Lasts p.parties p.templates p.settings fun n => n.Shown p.parties p.templates :=
  Negotiation.lasts_shown steady.wellFormed steady.named

theorem Steady.settled (steady : p.Steady) :
    p.Settled fun n => n.Shown p.parties p.templates :=
  ⟨steady.lasts, steady.register, steady.live⟩

theorem Picks.refused (picks : Picks p call p₁ h n) (settled : p.Settled P)
    (stays : n.Stays call.now n') :
    (n' = n ∧ ∀ key, ((p₁.put h n').discard h).register.registered? key =
      p.register.registered? key) ∨
    call.Names p n.key ∧ n.status = .offering ∧ n' = { n with status := .expired } ∧
      p.register.registered? n.key = some n ∧
      p.register.Differs ((p₁.put h n').discard h).register n.key (some n') := by
  obtain ⟨sound, found, elsewhere⟩ := picks.found settled.register settled.lasts
  have holds := settled.lasts.stays (sound.holds_of_find? found) stays
  obtain ⟨-, differs, -⟩ :=
    sound.putBack found stays.key_eq holds (settled.lasts.retire _ holds)
  have after : ((p₁.put h n').discard h).register.registered? n.key =
      if n.isPristine then none else some n' := by
    rw [← Negotiation.isPristine_stays stays]
    exact differs.at_key
  have others : ∀ key, key ≠ n.key → ((p₁.put h n').discard h).register.registered? key =
      p.register.registered? key :=
    fun key ne => (differs.elsewhere key ne).trans (elsewhere key ne)
  cases picks with
  | known named found₀ =>
    have key_eq := settled.register.key_eq found₀
    have before : p.register.registered? n.key = some n := Register.registered?_of_find? found
    rw [settled.live _ _ before] at after
    obtain rfl | ⟨offering, rfl⟩ := stays.eq_or_expired
    · refine .inl ⟨rfl, fun key => ?_⟩
      by_cases here : key = n'.key
      · rw [here, before]
        exact after
      · exact others key here
    · exact .inr ⟨key_eq ▸ named, offering, rfl, before, after, others⟩
  | @opened drawn id a b owned_mem isOwned counter_mem isCounter missing =>
    obtain rfl | ⟨offering, -⟩ := stays.eq_or_expired
    · refine .inl ⟨rfl, fun key => ?_⟩
      by_cases here : key = (Negotiation.start id a b).key
      · rw [here, missing]
        exact after
      · exact others key here
    · cases offering

theorem Picks.traceless (picks : Picks p call p₁ h n) (settled : p.Settled P)
    (stays : n.Stays call.now n') : Traceless call p ((p₁.put h n').discard h) := by
  have basis := picks.basis
  refine ⟨⟨basis.parties_eq, basis.templates_eq, basis.settings_eq⟩, picks.bank_eq, fun key => ?_⟩
  obtain ⟨-, same⟩ | ⟨named, offering, rfl, before, differs⟩ := picks.refused settled stays
  · exact .inl (same key)
  · by_cases here : key = n.key
    · subst here
      exact .inr ⟨named, n, before, offering, differs.at_key⟩
    · exact .inl (differs.elsewhere key here)

theorem Picks.stands (picks : Picks p call p₁ h n) (sound : p.register.Sound P) : p.Stands n := by
  cases picks with
  | known named found =>
    refine .inl ?_
    rw [sound.key_eq found]
    exact Register.registered?_of_find? found
  | opened drawn owned_mem isOwned counter_mem isCounter missing => exact .inr ⟨missing, rfl⟩

theorem Picks.differs (picks : Picks p call p₁ h n) (settled : p.Settled P)
    (same : p'.register = p₁.register.put h n') :
    p.register.Differs p'.register n.key (some n') := by
  obtain ⟨sound, found, elsewhere⟩ := picks.found settled.register settled.lasts
  have differs := Register.differs_put n' sound found
  rw [same]
  exact ⟨differs.at_key, fun k ne => (differs.elsewhere k ne).trans (elsewhere k ne)⟩

theorem Picks.keeps {bank : Bank} (picks : Picks p call p₁ h n) (said : call.Says m)
    (settled : p.Settled P)
    (stores : (bank = p.bank ∧ ∃ e, p.bank.add m = .error e) ∨ p.bank.Stores m bank) :
    Keeps call p { p₁.put h (n.apply m b) with bank } n m b :=
  have basis := picks.basis
  ⟨⟨basis.parties_eq, basis.templates_eq, basis.settings_eq⟩, said,
    picks.stands settled.register, picks.differs settled rfl, stores⟩

theorem Ends.leaves (ends : Ends p call result p') (settled : p.Settled P) :
    ((∃ e, result = .error e) ∧ Traceless call p p') ∨
      ∃ n m b, Keeps call p p' n m b ∧
        (∀ e, result = .error e →
          e.Collides ∨ (n.apply m b).lastRequest p.templates = .error e) ∧
        ∀ e, p.bank.add m = .error e → result = .error e := by
  cases ends with
  | idle e drawn => exact .inl ⟨⟨e, rfl⟩, ⟨rfl, rfl, rfl⟩, rfl, fun key => .inl rfl⟩
  | refused e picks stays => exact .inl ⟨⟨e, rfl⟩, picks.traceless settled stays⟩
  | unbanked e picks said takes failed =>
    refine .inr ⟨_, _, _, picks.keeps said settled (.inl ⟨picks.bank_eq, e, failed⟩), ?_, ?_⟩
    · rintro _ ⟨⟩
      exact .inl (Bank.store_eq_error failed)
    · intro e' failed'
      exact congrArg Except.error (Except.error.inj (failed.symm.trans failed'))
  | committed picks said takes stores failing =>
    refine .inr ⟨_, _, _, picks.keeps said settled (.inr stores), failing, fun e failed => ?_⟩
    obtain ⟨changed, bank, added, -⟩ := stores
    cases added.symm.trans failed

theorem Ends.cases (ends : Ends p call result p') (steady : p.Steady) :
    ((∃ e, result = .error e) ∧ Traceless call p p') ∨
      ∃ n m b, Keeps call p p' n m b ∧ (∀ e, result = .error e → e.Collides) ∧
        ∀ e, p.bank.add m = .error e → result = .error e := by
  obtain refused | ⟨n, m, b, keeps, failing, unstored⟩ := ends.leaves steady.settled
  · exact .inl refused
  · refine .inr ⟨n, m, b, keeps, fun e failed => (failing e failed).resolve_right fun hidden => ?_,
      unstored⟩
    have register := ends.lasts steady.lasts steady.register
    obtain ⟨h, found⟩ := Register.registered?_eq_some keeps.differs.at_key
    obtain ⟨offer, shown⟩ := (register.holds_of_find? found).shown
    cases shown.symm.trans hidden

theorem Traceless.live (traceless : Traceless call p p')
    (live : ∀ key n, p.register.registered? key = some n → n.isPristine = false) :
    ∀ key n, p'.register.registered? key = some n → n.isPristine = false := by
  intro key n found
  obtain same | ⟨-, n₀, -, -, after⟩ := traceless.entry key
  · exact live key n (same.symm.trans found)
  · obtain rfl := Option.some.inj (found.symm.trans after)
    simp [Negotiation.isPristine]

theorem Keeps.live (keeps : Keeps call p p' n m b)
    (live : ∀ key n, p.register.registered? key = some n → n.isPristine = false) :
    ∀ key n, p'.register.registered? key = some n → n.isPristine = false := by
  intro key n' found
  obtain ⟨-, rfl⟩ | ⟨-, before⟩ := keeps.differs.cases found
  · exact isPristine_apply
  · exact live key n' before

theorem Ends.settled (ends : Ends p call result p') (settled : p.Settled P) : p'.Settled P where
  lasts := by
    rw [ends.basis.parties_eq, ends.basis.templates_eq, ends.basis.settings_eq]
    exact settled.lasts
  register := ends.lasts settled.lasts settled.register
  live := by
    obtain ⟨-, traceless⟩ | ⟨n, m, b, keeps, -⟩ := ends.leaves settled
    · exact traceless.live settled.live
    · exact keeps.live settled.live

theorem Keeps.grows (keeps : Keeps call p p' n m b) : p.bank.Grows p'.bank := by
  obtain ⟨same, -⟩ | stores := keeps.stores
  · rw [same]
    exact .refl
  · exact stores.grows

theorem Ends.grows (ends : Ends p call result p') (settled : p.Settled P) :
    p.bank.Grows p'.bank := by
  obtain ⟨-, traceless⟩ | ⟨n, m, b, keeps, -⟩ := ends.leaves settled
  · rw [traceless.bank_eq]
    exact .refl
  · exact keeps.grows

theorem Ends.steady (ends : Ends p call result p') (steady : p.Steady) : p'.Steady := by
  have settled := ends.settled steady.settled
  have basis := ends.basis
  exact {
    wellFormed := basis.parties_eq ▸ steady.wellFormed
    named := basis.parties_eq ▸ steady.named
    register := by
      rw [basis.parties_eq, basis.templates_eq]
      exact settled.register
    live := settled.live
    placed := (ends.grows steady.settled).placed steady.placed }

theorem run_steady (steady : p.Steady) (calls : List Call) : (p.run calls).Steady := by
  induction calls generalizing p with
  | nil => exact steady
  | cons call rest ih => exact ih ((perform_ends steady.wellFormed call).steady steady)

/-- Any proxy after any operations. Its parties may have been built under any settings that accept
some algorithm, as all that are loaded do, and its templates in any way. -/
inductive Reachable : Proxy → Prop
  | run (parties : List Party) (ps : Parties) (templates : Templates) (s held : Settings)
    (ids : Nat → NegotiationId) (calls : List Call)
    (built : ∀ a ∈ parties, ∃ s' : Settings, s'.accepted ≠ [] ∧ a.Built s')
    (made : Parties.ofList parties held = .ok ps) :
    Reachable ((start ps templates s ids).run calls)

theorem steady_start {ps : Parties} {templates : Templates} {s : Settings} {ids : Nat → NegotiationId}
    (wf : ps.directory.WellFormed)
    (named : ∀ a ∈ ps.directory.entries, a.preferredFingerprint ∈ a.fingerprints) :
    (start ps templates s ids).Steady := by
  refine ⟨wf, named, Register.sound_empty _ _, fun key n found => ?_, Bank.placed_empty _⟩
  rw [start, Register.registered?_empty] at found
  cases found

theorem Reachable.steady (reachable : p.Reachable) : p.Steady := by
  obtain ⟨parties, ps, templates, s, held, ids, calls, built, made⟩ := reachable
  obtain ⟨entries_eq, -, wellFormed⟩ := Parties.ofList_eq_ok made
  refine run_steady (steady_start wellFormed fun a mem => ?_) calls
  obtain ⟨s', some_accepted, built⟩ := built a (entries_eq ▸ mem)
  exact built.preferredFingerprint_mem some_accepted

theorem Keeps.listing (keeps : Keeps call p p' n m b) (steady : p.Steady) (id : NegotiationId) :
    p'.bank.ofNegotiation id = p.bank.ofNegotiation id ∨
      m.id = id ∧ p'.bank.ofNegotiation id = p.bank.ofNegotiation id ++ [m] := by
  obtain ⟨same, -⟩ | stores := keeps.stores
  · exact .inl (by rw [same])
  · exact stores.ofNegotiation steady.placed id

/-- An operation that fails leaves no trace, but that the negotiation it named may have run out. Only
if a digest turned out to stand for two definitions, one message may have been committed, and may be
listed. -/
theorem failure_leaves (reachable : p.Reachable)
    (failed : (p.perform call).result = .error e) :
    Traceless call p (p.perform call).proxy ∨
      e.Collides ∧ ∃ n m b, Keeps call p (p.perform call).proxy n m b ∧
        ∀ id, (p.perform call).proxy.bank.ofNegotiation id = p.bank.ofNegotiation id ∨
          m.id = id ∧
            (p.perform call).proxy.bank.ofNegotiation id = p.bank.ofNegotiation id ++ [m] := by
  have steady := reachable.steady
  obtain ⟨-, traceless⟩ | ⟨n, m, b, keeps, failing, -⟩ :=
    (perform_ends steady.wellFormed call).cases steady
  · exact .inl traceless
  · exact .inr ⟨failing e failed, n, m, b, keeps, keeps.listing steady⟩

theorem Traceless.log_eq (traceless : Traceless call p p') (key : RegisterKey) :
    p'.log key = p.log key := by
  obtain same | ⟨-, n, before, -, after⟩ := traceless.entry key
  · simp only [log, same]
  · rw [log_of_registered? before, log_of_registered? after]
    rfl

theorem Commits.not_traceless (commits : Commits p p' now n a b m) : ¬ Traceless call p p' := by
  intro traceless
  have grown := commits.log_key
  rw [traceless.log_eq] at grown
  exact List.cons_ne_nil _ _ (List.append_right_eq_self.1 grown.symm)

theorem perform_grows (steady : p.Steady) (call : Call) :
    p.bank.Grows (p.perform call).proxy.bank :=
  (perform_ends steady.wellFormed call).grows steady.settled

theorem run_grows (steady : p.Steady) (calls : List Call) : p.bank.Grows (p.run calls).bank := by
  induction calls generalizing p with
  | nil => exact .refl
  | cons call rest ih =>
    exact (perform_grows steady call).trans
      (ih ((perform_ends steady.wellFormed call).steady steady))

theorem close_eq_refuse {prepare : Party → Negotiation → Except Error Prepared × Negotiation}
    (sound : p.Sound) (known : p.register.registered? n.key = some n)
    (refused : prepare n.first n = (.error e, n')) :
    ∃ h, p.register.find? n.key = some (h, n) ∧
      p.close relay n.first.name n.second.name n.id prepare = p.refuse h n n' e := by
  obtain ⟨h, located, same⟩ := close_eq_transmit sound known
  refine ⟨h, located.found, ?_⟩
  rw [same]
  unfold transmit
  rw [refused]

end Proxy

namespace Sample
open Negotiation

def yearOver : Instant := ⟨1735689600, 1, by decide⟩

theorem parties_reachable (calls : List Call) : (proxy.run calls).Reachable := by
  refine .run _ _ _ _ _ _ calls (fun a mem => ⟨settings, ?_, parties_built a mem⟩) parties_ofList
  decide

theorem pending_lapsed (id : NegotiationId) : (pending id).hasLapsed yearOver = true := by
  have ended : yearEnd.canonical < yearOver := by decide
  change decide (yearEnd.canonical < yearOver) = true
  exact decide_eq_true ended

def tooLate : Call := .order relay (.accept yearOver ⟨7, "Buyer", "Seller"⟩)

theorem tooLate_refused : ∃ h reason,
    (offered 7).register.find? (pending 7).key = some (h, pending 7) ∧
      (offered 7).perform tooLate = (offered 7).refuse h (pending 7)
        { pending 7 with status := .expired } (.badRequest .negotiationExpired reason) := by
  have lapsed := pending_lapsed 7
  obtain ⟨reason, turn⟩ : ∃ reason, (pending 7).checkTurn (pending 7).first .acceptance yearOver =
      .error (.badRequest .negotiationExpired reason) := checkTurn_of_lapsed lapsed
  have sides : (pending 7).Sides ((offered 7).context yearOver).settings (pending 7).first
      (pending 7).second := by
    rw [(offer_commits 7).basis.context_eq]
    exact pending_sides 7
  have noticed : (pending 7).notice yearOver = { pending 7 with status := .expired } := by
    simp [notice, lapsed]
  have refused : (pending 7).prepareAcceptance ((offered 7).context yearOver) (pending 7).first =
      (.error (.badRequest .negotiationExpired reason), { pending 7 with status := .expired }) :=
    (sides.prepare_eq_error turn).trans (congrArg _ noticed)
  obtain ⟨h, found, closed⟩ : ∃ h, (offered 7).register.find? (pending 7).key = some (h, pending 7) ∧
      (offered 7).accept relay yearOver
        ⟨(pending 7).id, (pending 7).first.name, (pending 7).second.name⟩ =
          (offered 7).refuse h (pending 7) { pending 7 with status := .expired }
            (.badRequest .negotiationExpired reason) :=
    Proxy.close_eq_refuse (offer_commits 7).sound (offered_known 7) refused
  have first_name : (pending 7).first.name = "Buyer" := buyer_name
  have second_name : (pending 7).second.name = "Seller" := seller_name
  rw [first_name, second_name] at closed
  exact ⟨h, reason, found, closed⟩

theorem late_acceptance_leaves : ∃ e,
    ((offered 7).perform (.order relay (.accept yearOver ⟨7, "Buyer", "Seller"⟩))).result =
      .error e ∧
    Proxy.Traceless (.order relay (.accept yearOver ⟨7, "Buyer", "Seller"⟩)) (offered 7)
      ((offered 7).perform (.order relay (.accept yearOver ⟨7, "Buyer", "Seller"⟩))).proxy := by
  obtain ⟨h, reason, -, refused⟩ := tooLate_refused
  have failed := congrArg Outcome.result refused
  refine ⟨_, failed, ?_⟩
  obtain traceless | ⟨⟨h, collides⟩, -⟩ := Proxy.failure_leaves (parties_reachable _) failed
  · exact traceless
  · cases collides

def answer (id : NegotiationId) : OfferRequest :=
  ⟨some id, "Buyer", "Seller", now, yearEnd, [goods]⟩

def answered (id : NegotiationId) : Proxy :=
  (offered id).run [.order relay (.offer now now (answer id))]

theorem makeOffer_answer (id : NegotiationId) :
    ((offered id).makeOffer relay now now (answer id)).proxy = answered id := by
  rw [answered, Proxy.run_cons, Proxy.run_nil, Proxy.perform_order, Proxy.proxy_carryOut_offer]

theorem answer_commits (id : NegotiationId) : ∃ o,
    Proxy.Commits (offered id) (answered id) now (pending id) (pending id).first
      (pending id).second (.offer o) ∧ o.validUntil = yearEnd.canonical := by
  have sides : (pending id).Sides ((offered id).context now).settings (pending id).first
      (pending id).second := by
    rw [offered_context]
    exact pending_sides id
  have known : [contract].forM (fun c =>
      (((offered id).context now).templates.validate c).map fun _ => ()) = .ok () := by
    rw [offered_context]
    exact known_contract
  obtain ⟨o, ready, until_eq⟩ :=
    sides.prepareOffer_eq_ok (pending_turn id .offer) known valid_contract
  obtain ⟨admits, -, -⟩ :=
    (prepareOffer_prepares sides).of_ok (congrArg Prod.fst ready)
  have templates_eq : (offered id).templates = templates := (offer_commits id).basis.templates_eq
  have commits := Proxy.makeOffer_commits (r := answer id) (offer_commits id).sound
    (offered_known id) rfl buyer_name.symm seller_name.symm goods_valid (goods_fit templates_eq)
    ready admits (online _ _)
  rw [makeOffer_answer] at commits
  exact ⟨o, commits, until_eq⟩

def stretched (id : NegotiationId) : Message :=
  match (offer id).message with
  | .offer o => .offer { o with validUntil := yearOver }
  | m => m

theorem stretched_eq (id : NegotiationId) : ∃ o, (offer id).message = .offer o ∧
    o.validAfter = now.canonical ∧ o.validUntil = yearEnd.canonical ∧
    stretched id = .offer { o with validUntil := yearOver } :=
  ⟨_, rfl, rfl, rfl, rfl⟩

theorem yearOver_canonical : yearOver.canonical = yearEnd.canonical.canonical := by
  decide

theorem answered_eq (id : NegotiationId) : answered id = proxy.run
    [.message relay now (offer id).message, .order relay (.offer now now (answer id))] := by
  rw [answered, offered, ← Proxy.run_append, List.singleton_append]

theorem offered_found (id : NegotiationId) : ∃ place, (offered id).bank.find?
    (.of .sha512 (offer id).message.canonicalBytes) = some (place, (offer id).message) := by
  have steady : proxy.Steady := (parties_reachable []).steady
  have commits := offer_commits id
  have ends := Proxy.perform_ends steady.wellFormed (.message relay now (offer id).message)
  rw [Proxy.perform_message, receive_offer] at ends
  obtain ⟨-, traceless⟩ | ⟨n, m, b, keeps, -⟩ := ends.cases steady
  · exact absurd traceless commits.not_traceless
  · obtain rfl : m = (offer id).message := keeps.said
    have accepted : HashAlgorithm.sha512 ∈ proxy.bank.accepted := by
      decide
    obtain ⟨-, failing⟩ | stores := keeps.stores
    · obtain ⟨a, -, place, other, found, -⟩ := Bank.store_eq_error_iff.1 failing
      cases found
    · exact stores.find? (Bank.placed_empty _) accepted

theorem answered_found (id : NegotiationId) : ∃ place, (answered id).bank.find?
    (.of .sha512 (offer id).message.canonicalBytes) = some (place, (offer id).message) := by
  obtain ⟨place, found⟩ := offered_found id
  have steady : (offered id).Steady := (parties_reachable _).steady
  have grows := Proxy.perform_grows steady (.order relay (.offer now now (answer id)))
  have answered_eq : ((offered id).perform (.order relay (.offer now now (answer id)))).proxy =
      answered id := by
    rw [answered, Proxy.run_cons, Proxy.run_nil]
  rw [answered_eq] at grows
  exact ⟨place, grows.named _ _ found⟩

theorem offer_again (id : NegotiationId) : ∃ n o, (offer id).message = .offer o ∧
    (answered id).register.registered? n.key = some n ∧
    n.Admits ((answered id).context now) n.second n.first (.offer o) := by
  obtain ⟨answer, commits, until_eq⟩ := answer_commits id
  obtain ⟨o, message_eq, -, ends, -⟩ := stretched_eq id
  have context_eq : (answered id).context now = proxy.context now :=
    ((offer_commits id).basis.trans commits.basis).context_eq
  have known := commits.differs.at_key
  rw [← key_apply (n := pending id)] at known
  have admits := offer_admits id
  rw [message_eq] at admits
  have running : ¬ yearEnd.canonical < now := by decide
  have lapsed : ((pending id).apply (.offer answer) (pending id).second).hasLapsed now = false :=
    (hasLapsed_eq_false_iff rfl rfl (lastOffer?_append answer)).2 (until_eq ▸ running)
  refine ⟨_, o, message_eq, known, ?_⟩
  have first_eq : (pending id).first = (buying id).first := first_apply
  have second_eq : (pending id).second = (buying id).second := second_apply
  rw [first_apply, second_apply, first_eq, context_eq]
  rw [second_eq] at lapsed ⊢
  refine admits.again rfl rfl rfl ?_ ?_
  · exact checkTurn_eq_ok_iff.2 ⟨rfl, .inr ⟨rfl, lapsed, rfl⟩⟩
  · rw [ends]
    exact running

theorem stretched_commits : ∃ n, Proxy.Commits (answered 7)
    ((answered 7).receive relay now (stretched 7)).proxy now n n.second n.first (stretched 7) := by
  obtain ⟨answer, answers, -⟩ := answer_commits 7
  obtain ⟨n, o, message_eq, known, admits⟩ := offer_again 7
  obtain ⟨o', message_eq', after_eq, until_eq, stretched_eq⟩ := stretched_eq 7
  obtain rfl := Message.offer.inj (message_eq.symm.trans message_eq')
  obtain ⟨h, found⟩ := Register.registered?_eq_some known
  have held := answers.sound.register.holds_of_find? found
  have admits' : n.Admits ((answered 7).context now) n.second n.first
      (.offer { o with validUntil := yearOver }) := by
    refine admits.until ?_ ?_ (by decide)
    · rw [until_eq]
      exact yearOver_canonical
    · rw [after_eq]
      decide
  have context_eq : (answered 7).context now = proxy.context now :=
    ((offer_commits 7).basis.trans answers.basis).context_eq
  have timely : checkTimestamp ((answered 7).context now) o.signature.timestamp = .ok () := by
    have timely := offer_timely 7
    rw [message_eq] at timely
    rw [context_eq]
    exact timely
  rw [stretched_eq]
  exact ⟨n, Proxy.receive_commits answers.sound relay (.inl known) held admits' timely⟩

theorem stretched_collides : ∃ e, (answered 7).bank.add (stretched 7) = .error e := by
  obtain ⟨place, found⟩ := answered_found 7
  obtain ⟨o, message_eq, -, until_eq, stretched_eq⟩ := stretched_eq 7
  have accepted : HashAlgorithm.sha512 ∈ (answered 7).bank.accepted := by
    have steady : proxy.Steady := (parties_reachable []).steady
    rw [answered_eq, (Proxy.run_grows steady _).accepted_eq]
    decide
  have spelt : (stretched 7).canonicalBytes = (offer 7).message.canonicalBytes := by
    rw [stretched_eq, message_eq]
    refine Message.canonicalBytes_until ?_
    rw [until_eq]
    exact yearOver_canonical
  refine Bank.store_eq_error_iff.2 ⟨.sha512, accepted, place, (offer 7).message, ?_, ?_⟩
  · rw [spelt]
    exact found
  · rw [stretched_eq, message_eq]
    intro same
    have ends : o.validUntil = yearOver := congrArg Offer.validUntil (Message.offer.inj same)
    rw [until_eq] at ends
    exact absurd ends (by decide)

theorem failure_commits : ¬ ∀ (p : Proxy) (call : Call) (e : Error), p.Reachable →
    (p.perform call).result = .error e → Proxy.Traceless call p (p.perform call).proxy := by
  intro traceless
  obtain ⟨n, commits⟩ := stretched_commits
  obtain ⟨e, failed⟩ := stretched_collides
  have reachable : (answered 7).Reachable := answered_eq 7 ▸ parties_reachable _
  have steady := reachable.steady
  have ends := Proxy.perform_ends steady.wellFormed (.message relay now (stretched 7))
  obtain ⟨-, traceless'⟩ | ⟨n', m, b, keeps, -, failing⟩ := ends.cases steady
  · exact commits.not_traceless traceless'
  · obtain rfl : m = stretched 7 := keeps.said
    exact commits.not_traceless (traceless _ (.message relay now (stretched 7)) e reachable
      (failing e failed))

end Sample
end Parley
