import Parley.Proofs.Bank
import Parley.Proofs.Message
import Parley.Proofs.Proxy.Course

namespace Parley

namespace Negotiation

theorem Stays.key_eq {n n' : Negotiation} {now : Instant} (stays : n.Stays now n') :
    n'.key = n.key := by
  obtain ⟨status, rfl⟩ := stays.eq_withStatus
  rfl

def Ask.Regular : Ask → Prop
  | .offer validAfter validUntil _ => validAfter.Regular ∧ validUntil.Regular
  | .acceptance => True
  | .rejection => True

theorem Drafts.id_eq {n : Negotiation} {ctx : UpdateContext} {a b : Party} {scheme : SignatureScheme}
    {ask : Ask} {m : Message} (drafts : n.Drafts ctx a b scheme ask m) : m.id = n.id := by
  cases drafts <;> rfl

theorem Drafts.precise {n : Negotiation} {ctx : UpdateContext} {a b : Party}
    {scheme : SignatureScheme} {ask : Ask} {m : Message} (drafts : n.Drafts ctx a b scheme ask m)
    (asked : ask.Regular) (clock : ctx.now.Regular) : m.Precise := by
  have signed := Signature.carried_unsigned clock scheme
  unfold Message.Precise
  cases drafts with
  | offer known valid =>
    simp only [Message.carried, (Instant.regular_canonical.2 asked.1).carried_eq,
      (Instant.regular_canonical.2 asked.2).carried_eq, Instant.canonical_canonical, signed]
  | acceptance named => simp only [Message.carried, signed]
  | rejection named => simp only [Message.carried, signed]

theorem id_of_prepareFor {n n' : Negotiation} {ctx : UpdateContext} {actor : Party} {ask : Ask}
    {prepared : Prepared} (ready : n.prepareFor ctx actor ask = (.ok prepared, n')) :
    prepared.message.id = n.id := by
  obtain ⟨key, m, -, drafts, signed⟩ := drafts_of_prepareFor ready
  rw [signed]
  exact (Message.id_withSum _ m).trans drafts.id_eq

theorem precise_of_prepareFor {n n' : Negotiation} {ctx : UpdateContext} {actor : Party} {ask : Ask}
    {prepared : Prepared} (ready : n.prepareFor ctx actor ask = (.ok prepared, n'))
    (asked : ask.Regular) (clock : ctx.now.Regular) : prepared.message.Precise := by
  obtain ⟨key, m, -, drafts, signed⟩ := drafts_of_prepareFor ready
  rw [signed]
  exact (drafts.precise asked clock).sign _ _

end Negotiation

def Order.Regular : Order → Prop
  | .offer _ now r => (r.validAfter.Regular ∧ r.validUntil.Regular) ∧ now.Regular
  | .accept now _ => now.Regular
  | .reject now _ => now.Regular

theorem Order.Regular.asks {order : Order} {ask : Negotiation.Ask} (regular : order.Regular)
    (asked : order.Asks ask) : ask.Regular ∧ order.now.Regular := by
  cases order with
  | offer checked now r =>
    obtain ⟨contracts, rfl⟩ := asked
    exact regular
  | accept now r =>
    cases asked
    exact ⟨trivial, regular⟩
  | reject now r =>
    cases asked
    exact ⟨trivial, regular⟩

def Call.Regular : Call → Prop
  | .order _ asked => asked.Regular
  | .message _ _ _ => True

def Call.Says : Call → Message → Prop
  | .order _ _, _ => True
  | .message _ _ m, m' => m' = m

/-- That an operation commits the message it was given, or one it made itself. -/
def Call.Gives : Call → Message → Prop
  | .order relay asked, m => (order relay asked).Regular → m.Precise
  | .message _ _ m, m' => m' = m

theorem Call.Gives.says {call : Call} {m : Message} (gives : call.Gives m) : call.Says m := by
  cases call with
  | order relay order => trivial
  | message relay now m => exact gives

namespace Proxy

variable {p p' p₁ p₂ : Proxy} {n n' : Negotiation} {key : RegisterKey} {h : Handle} {now : Instant}
variable {m : Message} {a b actor : Party} {relay : Relay} {call : Call} {ask : Negotiation.Ask}
variable {prepare : Negotiation → Except Error Prepared × Negotiation}
variable {P : Negotiation → Prop}

/-- What an operation does that fetches nothing. -/
inductive Acts (p : Proxy) (call : Call) : Except Error Unit → Proxy → Prop
  | idle (e : Error) (drawn : Nat) :
    Acts p call (.error e) { p with register := { p.register with drawn } }
  | refused {p₁ : Proxy} {h : Handle} {n n' : Negotiation} (e : Error) (picks : Picks p call p₁ h n)
    (stays : n.Stays call.now n') : Acts p call (.error e) ((p₁.put h n').discard h)
  | unbanked {p₁ : Proxy} {h : Handle} {n : Negotiation} {m : Message} {b : Party} (e : Error)
    (picks : Picks p call p₁ h n) (gives : call.Gives m)
    (takes : n.Takes p.parties (p.context call.now) m b)
    (failed : p.bank.add m = .error e) : Acts p call (.error e) (p₁.put h (n.apply m b))
  | committed {p₁ : Proxy} {h : Handle} {n : Negotiation} {m : Message} {b : Party} {bank : Bank}
    {changed : Bool} {result : Except Error Unit} (picks : Picks p call p₁ h n) (gives : call.Gives m)
    (takes : n.Takes p.parties (p.context call.now) m b)
    (added : p.bank.add m = .ok (changed, bank))
    (failing : ∀ e, result = .error e → (n.apply m b).lastRequest p.templates = .error e) :
    Acts p call result { p₁.put h (n.apply m b) with bank }

/-- That a message of a counter-party is committed and stored, and what it refers to is fetched
next. -/
inductive Accepts (p : Proxy) (now : Instant) (m : Message) (sender : Party) (event : Event)
    (q : Proxy) : Prop
  | intro {receiver : Party} {h : Handle} {n n' : Negotiation} {p₁ : Proxy}
    (counter : p.parties.byFingerprint .counter m.sender = .ok sender)
    (owned : p.parties.byFingerprint .owned m.receiver = .ok receiver)
    (looked : p.lookUp m receiver sender = .ok ((h, n), p₁))
    (received : n.receive (p₁.context now) m = (.ok (), n'))
    (settled : p₁.settle h n' m = ⟨.ok (), q, [], [event], []⟩)

inductive Ends (p : Proxy) (call : Call) : Except Error Unit → Proxy → Prop
  | idle (e : Error) (drawn : Nat) :
    Ends p call (.error e) { p with register := { p.register with drawn } }
  | refused {p₁ : Proxy} {h : Handle} {n n' : Negotiation} (e : Error) (picks : Picks p call p₁ h n)
    (stays : n.Stays call.now n') : Ends p call (.error e) ((p₁.put h n').discard h)
  | unbanked {p₁ : Proxy} {h : Handle} {n : Negotiation} {m : Message} {b : Party} (e : Error)
    (picks : Picks p call p₁ h n) (said : call.Says m)
    (takes : n.Takes p.parties (p.context call.now) m b)
    (failed : p.bank.add m = .error e) : Ends p call (.error e) (p₁.put h (n.apply m b))
  | committed {p₁ : Proxy} {h : Handle} {n : Negotiation} {m : Message} {b : Party} {bank : Bank}
    {result : Except Error Unit} (picks : Picks p call p₁ h n) (said : call.Says m)
    (takes : n.Takes p.parties (p.context call.now) m b) (stores : p.bank.Stores m bank)
    (failing : ∀ e, result = .error e →
      e.Collides ∨ (n.apply m b).lastRequest p.templates = .error e) :
    Ends p call result { p₁.put h (n.apply m b) with bank }

theorem event_eq (p : Proxy) (n : Negotiation) : p.event n =
    (n.lastRequest p.templates).map fun offer => ⟨n.id, offer, n.status⟩ := by
  unfold event
  cases n.lastRequest p.templates <;> rfl

theorem settle_cases (p : Proxy) (h : Handle) (n : Negotiation) (m : Message) :
    (∃ e, p.bank.add m = .error e ∧ p.settle h n m = .quiet (p.put h n) (.error e)) ∨
    ∃ changed bank, p.bank.add m = .ok (changed, bank) ∧
      ((∃ e, n.lastRequest p.templates = .error e ∧
        p.settle h n m = .quiet { p.put h n with bank } (.error e)) ∨
      ∃ offer, n.lastRequest p.templates = .ok offer ∧
        p.settle h n m = ⟨.ok (), { p.put h n with bank }, [], [⟨n.id, offer, n.status⟩], []⟩) := by
  unfold settle
  dsimp only
  split
  next e unstored => exact .inl ⟨e, unstored, rfl⟩
  next changed bank stored =>
    refine .inr ⟨changed, bank, stored, ?_⟩
    have told : event { p.put h n with bank } n =
        (n.lastRequest p.templates).map fun offer => ⟨n.id, offer, n.status⟩ := event_eq _ n
    rw [told]
    cases shown : n.lastRequest p.templates with
    | error e => exact .inl ⟨e, rfl, rfl⟩
    | ok offer => exact .inr ⟨offer, rfl, rfl⟩

theorem Picks.settle_acts (picks : Picks p call p₁ h n) (gives : call.Gives m)
    (takes : n.Takes p.parties (p.context call.now) m b) :
    Acts p call (p₁.settle h (n.apply m b) m).result (p₁.settle h (n.apply m b) m).proxy := by
  have ended := p₁.settle_cases h (n.apply m b) m
  rw [picks.bank_eq, picks.basis.templates_eq] at ended
  obtain ⟨e, unstored, settled⟩ | ⟨changed, bank, stored, told⟩ := ended
  · rw [settled]
    exact .unbanked e picks gives takes unstored
  · obtain ⟨e, hidden, settled⟩ | ⟨offer, -, settled⟩ := told
    · rw [settled]
      refine .committed picks gives takes stored ?_
      rintro _ ⟨⟩
      exact hidden
    · rw [settled]
      exact .committed picks gives takes stored nofun

theorem Acts.ends {result : Except Error Unit} (acts : Acts p call result p') :
    Ends p call result p' := by
  cases acts with
  | idle e drawn => exact .idle e drawn
  | refused e picks stays => exact .refused e picks stays
  | unbanked e picks gives takes failed => exact .unbanked e picks gives.says takes failed
  | committed picks gives takes added failing =>
    exact .committed picks gives.says takes ⟨_, _, added, .refl, rfl⟩
      fun e failed => .inr (failing e failed)

theorem Ends.fetches {p₂ : Proxy} {result : Except Error Unit} (ends : Ends p call (.ok ()) p₁)
    (fetches : Fetches p₁ p₂) (failing : ∀ e, result = .error e → e.Collides) :
    Ends p call result p₂ := by
  cases ends with
  | committed picks said takes stores told =>
    obtain ⟨⟨bank, rfl⟩, grows, listings_eq⟩ := fetches
    obtain ⟨changed, bank₁, added, grows₁, listings_eq₁⟩ := stores
    exact .committed picks said takes
      ⟨changed, bank₁, added, grows₁.trans grows, listings_eq.trans listings_eq₁⟩
      fun e failed => .inl (failing e failed)

theorem fetches_settle : (p.settle h n m).fetches = [] := by
  obtain ⟨e, -, settled⟩ | ⟨_, bank, -, (⟨e, -, settled⟩ | ⟨offer, -, settled⟩)⟩ :=
    p.settle_cases h n m
  all_goals exact congrArg Outcome.fetches settled

theorem Accepts.receive_eq {event : Event} {q : Proxy} (accepts : p.Accepts now m b event q)
    (relay : Relay) : p.receive relay now m =
      { q.resolveReferences relay m b with
        events := event :: (q.resolveReferences relay m b).events } := by
  obtain ⟨counter, owned, looked, received, settled⟩ := accepts
  rw [receive_eq_take counter owned looked]
  unfold take
  rw [received]
  dsimp only
  rw [settled]
  rfl

theorem Picks.take_acts (picks : Picks p call p₁ h n) (gives : call.Gives m) (relay : Relay) :
    (Acts p call (p₁.take relay call.now m b h n).result (p₁.take relay call.now m b h n).proxy ∧
      (p₁.take relay call.now m b h n).fetches = []) ∨
    ∃ n' event q, n.receive (p₁.context call.now) m = (.ok (), n') ∧
      p₁.settle h n' m = ⟨.ok (), q, [], [event], []⟩ ∧ Acts p call (.ok ()) q := by
  unfold take
  cases received : n.receive (p₁.context call.now) m with
  | mk result n' =>
    rw [picks.basis.context_eq] at received
    cases result with
    | error e => exact .inl ⟨.refused e picks (Negotiation.stays_of_receive received), rfl⟩
    | ok u =>
      obtain ⟨a, -, -, rfl⟩ := Negotiation.receive_eq_ok received
      have acts := picks.settle_acts gives (.inbound received)
      dsimp only
      have result : (∃ e, (p₁.settle h (n.apply m a) m).result = .error e) ∨
          ∃ q event, p₁.settle h (n.apply m a) m = ⟨.ok (), q, [], [event], []⟩ := by
        obtain ⟨e, -, settled⟩ | ⟨_, bank, -, (⟨e, -, settled⟩ | ⟨offer, -, settled⟩)⟩ :=
          p₁.settle_cases h (n.apply m a) m
        · exact .inl ⟨e, congrArg Outcome.result settled⟩
        · exact .inl ⟨e, congrArg Outcome.result settled⟩
        · exact .inr ⟨_, _, settled⟩
      obtain ⟨e, failed⟩ | ⟨q, event, settled⟩ := result
      · rw [failed] at acts
        unfold Outcome.andThen
        rw [failed]
        exact .inl ⟨acts, fetches_settle⟩
      · rw [settled] at acts
        exact .inr ⟨n.apply m a, event, q, rfl, settled, acts⟩

theorem acts_quiet (e : Error) : Acts p call (.error e) p :=
  .idle e p.register.drawn

theorem receive_acts (wf : p.parties.directory.WellFormed) (relay : Relay) (now : Instant)
    (m : Message) :
    (Acts p (.message relay now m) (p.receive relay now m).result (p.receive relay now m).proxy ∧
      (p.receive relay now m).fetches = []) ∨
    ∃ sender event q, p.Accepts now m sender event q ∧ Acts p (.message relay now m) (.ok ()) q := by
  obtain ⟨e, -, quiet⟩ | ⟨a, b, h, n, p₁, counter, owned, looked, picks⟩ :=
    receive_course wf relay now m
  · rw [quiet]
    exact .inl ⟨acts_quiet e, rfl⟩
  · rw [receive_eq_take counter owned looked]
    obtain done | ⟨n', event, q, received, settled, acts⟩ := picks.take_acts (b := b) rfl relay
    · exact .inl done
    · exact .inr ⟨b, event, q, ⟨counter, owned, looked, received, settled⟩, acts⟩

theorem carryOut_acts (wf : p.parties.directory.WellFormed) (relay : Relay) (order : Order) :
    Acts p (.order relay order) (p.carryOut relay order).result (p.carryOut relay order).proxy := by
  cases carryOut_course wf order with
  | @idle e drawn hopeless eq =>
    rw [eq]
    exact .idle e drawn
  | @refused p₁ h n n' e picks declines refuses eq =>
    rw [eq]
    exact .refused e (picks relay) refuses.stays
  | @hands p₁ p₂ h n actor b m ask asked picks mem ready left eq =>
    rw [eq]
    unfold hand
    cases relay.send m b with
    | error cause =>
      obtain rfl | rfl := left
      · exact acts_quiet _
      · exact .refused _ (picks relay) (.inl rfl)
    | ok u =>
      have gives : Call.Gives (.order relay order) m := fun regular =>
        Negotiation.precise_of_prepareFor ready (regular.asks asked).1 (regular.asks asked).2
      exact (picks relay).settle_acts gives (.outbound actor ask mem ready)

theorem perform_ends (wf : p.parties.directory.WellFormed) (call : Call) :
    Ends p call (p.perform call).result (p.perform call).proxy := by
  cases call with
  | message relay now m =>
    obtain ⟨acts, -⟩ | ⟨sender, event, q, accepts, acts⟩ := receive_acts wf relay now m
    · exact acts.ends
    · rw [perform_message, accepts.receive_eq]
      obtain ⟨fetches, -, failing⟩ := resolve_fetches relay sender _ _ _ _
      exact acts.ends.fetches fetches failing
  | order relay order => exact (carryOut_acts wf relay order).ends

/-- That a property of negotiations lasts, whatever the operations of a proxy do. -/
structure Lasts (ps : Parties) (templates : Templates) (s : Settings) (P : Negotiation → Prop) :
    Prop where
  start : ∀ id {a b : Party}, a ∈ ps.directory.entries → a.isOwned = true →
    b ∈ ps.directory.entries → b.isOwned = false → P (.start id a b)
  notice : ∀ n now, P n → P (n.notice now)
  retire : ∀ n, P n → P { n with retired := true }
  take : ∀ n now m b, P n → n.Takes ps ⟨templates, s, now⟩ m b → P (n.apply m b)

theorem Lasts.stays (lasts : Lasts p.parties p.templates p.settings P) (holds : P n)
    (stays : n.Stays now n') : P n' := by
  obtain rfl | rfl := stays
  · exact holds
  · exact lasts.notice n now holds

theorem Picks.found (picks : Picks p call p₁ h n) (sound : p.register.Sound P)
    (lasts : Lasts p.parties p.templates p.settings P) :
    p₁.register.Sound P ∧ p₁.register.find? n.key = some (h, n) ∧
      ∀ k, k ≠ n.key → p₁.register.registered? k = p.register.registered? k := by
  cases picks with
  | known named found =>
    rw [sound.key_eq found]
    exact ⟨sound, found, fun _ _ => rfl⟩
  | opened drawn owned_mem isOwned counter_mem isCounter missing =>
    have sound' : { p.register with drawn }.Sound P := ⟨sound.listed, sound.holds⟩
    exact ⟨sound'.insert (lasts.start _ owned_mem isOwned counter_mem isCounter),
      Register.find?_insert _ _ _ _, (Register.differs_insert sound').elsewhere⟩

theorem Ends.basis {result : Except Error Unit} (ends : Ends p call result p') :
    SameBasis p p' := by
  cases ends with
  | idle e drawn => exact ⟨rfl, rfl, rfl⟩
  | refused e picks stays =>
    exact ⟨picks.basis.parties_eq, picks.basis.templates_eq, picks.basis.settings_eq⟩
  | unbanked e picks said takes failed =>
    exact ⟨picks.basis.parties_eq, picks.basis.templates_eq, picks.basis.settings_eq⟩
  | committed picks said takes stores failing =>
    exact ⟨picks.basis.parties_eq, picks.basis.templates_eq, picks.basis.settings_eq⟩

theorem Ends.lasts {result : Except Error Unit} (ends : Ends p call result p')
    (lasts : Lasts p.parties p.templates p.settings P) (sound : p.register.Sound P) :
    p'.register.Sound P := by
  have put : ∀ {p₁ h n m b}, Picks p call p₁ h n → n.Takes p.parties (p.context call.now) m b →
      (p₁.register.put h (n.apply m b)).Sound P := by
    intro p₁ h n m b picks takes
    obtain ⟨sound₁, found, -⟩ := picks.found sound lasts
    exact sound₁.put found Negotiation.key_apply
      (lasts.take n call.now m b (sound₁.holds_of_find? found) takes)
  cases ends with
  | idle e drawn => exact ⟨sound.listed, sound.holds⟩
  | refused e picks stays =>
    obtain ⟨sound₁, found, -⟩ := picks.found sound lasts
    have holds := lasts.stays (sound₁.holds_of_find? found) stays
    exact (sound₁.putBack found stays.key_eq holds (lasts.retire _ holds)).1
  | unbanked e picks said takes failed => exact put picks takes
  | committed picks said takes stores failing => exact put picks takes

theorem run_lasts (wf : p.parties.directory.WellFormed)
    (lasts : Lasts p.parties p.templates p.settings P) (sound : p.register.Sound P)
    (calls : List Call) : SameBasis p (p.run calls) ∧ (p.run calls).register.Sound P := by
  induction calls generalizing p with
  | nil => exact ⟨.refl, sound⟩
  | cons call rest ih =>
    have ends := perform_ends wf call
    obtain ⟨parties_eq, templates_eq, settings_eq⟩ := ends.basis
    obtain ⟨basis, sound'⟩ := ih (by rwa [parties_eq]) (by rwa [parties_eq, templates_eq, settings_eq])
      (ends.lasts lasts sound)
    exact ⟨ends.basis.trans basis, sound'⟩

end Proxy

end Parley
