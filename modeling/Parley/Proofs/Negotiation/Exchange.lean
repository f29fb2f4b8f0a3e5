import Parley.Negotiation.Basic
import Parley.Proofs.Directory
import Parley.Proofs.Party

namespace Parley

namespace Message

variable (sum : Option (List UInt8)) (m : Message)

@[simp] theorem id_withSum : (m.withSum sum).id = m.id := by
  cases m <;> rfl

@[simp] theorem sender_withSum : (m.withSum sum).sender = m.sender := by
  cases m <;> rfl

@[simp] theorem receiver_withSum : (m.withSum sum).receiver = m.receiver := by
  cases m <;> rfl

@[simp] theorem kind_withSum : (m.withSum sum).kind = m.kind := by
  cases m <;> rfl

@[simp] theorem signature_withSum : (m.withSum sum).signature = { m.signature with sum } := by
  cases m <;> rfl

end Message

namespace Negotiation

variable {n n' : Negotiation} {s : Settings} {ctx : UpdateContext} {m : Message} {now : Instant}
variable {a b p q : Party}

def Joins (n : Negotiation) (a b : Party) : Prop :=
  (n.first = a ∧ n.second = b) ∨ (n.first = b ∧ n.second = a)

theorem Joins.symm (h : n.Joins a b) : n.Joins b a :=
  Or.symm h

/-- A negotiation between an owned party and a counter-party, as settings hold them. -/
structure Sides (s : Settings) (n : Negotiation) (owned counter : Party) : Prop where
  joins : n.Joins owned counter
  owned_built : owned.Built s
  counter_built : counter.Built s
  isOwned : owned.isOwned = true
  isCounter : counter.isOwned = false
  apart : Directory.Apart owned counter

@[simp] theorem first_apply {a : Party} : (n.apply m a).first = n.first := by
  cases m <;> rfl

@[simp] theorem second_apply {a : Party} : (n.apply m a).second = n.second := by
  cases m <;> rfl

theorem Sides.apply {a : Party} (sides : n.Sides s p q) : (n.apply m a).Sides s p q where
  joins := by
    unfold Joins
    rw [first_apply, second_apply]
    exact sides.joins
  owned_built := sides.owned_built
  counter_built := sides.counter_built
  isOwned := sides.isOwned
  isCounter := sides.isCounter
  apart := sides.apart

/-- What is asked of a message before it is committed, whichever way it travels. -/
structure Admits (n : Negotiation) (ctx : UpdateContext) (sender receiver : Party) (m : Message) :
    Prop where
  id_eq : m.id = n.id
  sender_mem : m.sender ∈ sender.fingerprints
  receiver_mem : m.receiver ∈ receiver.fingerprints
  turn : n.checkTurn sender m.kind ctx.now = .ok ()
  content : n.checkContent ctx m = .ok ()
  verified : sender.verify m.signingBytes m.signature ctx.settings = .ok ()

theorem checkTurn_eq_ok_iff {kind : MessageKind} : n.checkTurn a kind now = .ok () ↔
    n.retired = false ∧ (n.status = .initial ∧ kind = .offer ∨
      n.status = .offering ∧ n.hasLapsed now = false ∧ n.active = some a.name) := by
  unfold checkTurn
  cases retired : n.retired with
  | true => simp
  | false =>
    cases status : n.status with
    | initial => by_cases h : kind = .offer <;> simp [h]
    | offering =>
      cases lapsed : n.hasLapsed now with
      | true => simp
      | false => by_cases h : n.active = some a.name <;> simp [h]
    | accepted => simp
    | rejected => simp
    | expired => simp

theorem notice_of_checkTurn {kind : MessageKind} (turn : n.checkTurn a kind now = .ok ()) :
    n.notice now = n := by
  have lapsed : n.hasLapsed now = false := by
    obtain ⟨-, ⟨initial, -⟩ | ⟨-, lapsed, -⟩⟩ := checkTurn_eq_ok_iff.1 turn
    · simp [hasLapsed, initial]
    · exact lapsed
  simp [notice, lapsed]

theorem checkOfferHash_eq_ok_iff {h : Digest} : n.checkOfferHash s h = .ok () ↔
    h.algorithm ∈ s.accepted ∧
      ∃ last, n.lastOffer? = some last ∧ h.verifies (Message.offer last).canonicalBytes = true := by
  unfold checkOfferHash currentOffer Settings.accepts
  by_cases accepted : h.algorithm ∈ s.accepted
  · cases n.lastOffer? with
    | none => simp [accepted, bind, Except.bind]
    | some last =>
      by_cases verified : h.verifies (Message.offer last).canonicalBytes = true
      · simp [accepted, verified, bind, Except.bind, pure, Except.pure]
      · simp [accepted, verified, bind, Except.bind, throw, throwThe, MonadExceptOf.throw]
  · simp [accepted, bind, Except.bind, throw, throwThe, MonadExceptOf.throw]

theorem checkTerms_eq_ok_iff {α : Type} {contracts : List α} {validAfter validUntil : Instant} :
    checkTerms contracts validAfter validUntil now = .ok () ↔
      contracts ≠ [] ∧ ¬ validUntil < validAfter ∧ ¬ validUntil < now := by
  unfold checkTerms
  cases contracts with
  | nil => simp
  | cons c rest =>
    by_cases order : validUntil < validAfter
    · simp [order]
    · by_cases expired : validUntil < now <;> simp [order, expired]

theorem checkTimestamp_eq_ok_iff {t : Instant} : checkTimestamp ctx t = .ok () ↔
    (t.apart ctx.now).nanoseconds ≤ ctx.settings.timestampTolerance.nanoseconds := by
  unfold checkTimestamp
  by_cases h : ctx.settings.timestampTolerance.nanoseconds < (t.apart ctx.now).nanoseconds
  · simp [h]
  · simpa [h] using Int.not_lt.1 h

theorem Sides.names_ne (sides : n.Sides s p q) (joins : n.Joins a b) : a.name ≠ b.name := by
  have names : p.name ≠ q.name := sides.apart.1
  obtain ⟨rfl, rfl⟩ | ⟨rfl, rfl⟩ := sides.joins <;> obtain ⟨rfl, rfl⟩ | ⟨rfl, rfl⟩ := joins
  · exact names
  · exact names.symm
  · exact names.symm
  · exact names

theorem Sides.counterpartOf_eq (sides : n.Sides s p q) : n.counterpartOf p = .ok q := by
  have names : p.name ≠ q.name := sides.apart.1
  unfold counterpartOf
  obtain ⟨rfl, rfl⟩ | ⟨rfl, rfl⟩ := sides.joins
  · simp
  · simp [names.symm]

theorem Sides.partyByFingerprint_eq_ok_iff (sides : n.Sides s p q) {h : Digest} :
    n.partyByFingerprint h = .ok a ↔
      (a = p ∧ h ∈ p.fingerprints) ∨ (a = q ∧ h ∈ q.fingerprints) := by
  have once : h ∈ p.fingerprints → h ∉ q.fingerprints := sides.apart.2 h
  unfold partyByFingerprint parties Party.hasFingerprint
  by_cases hp : h ∈ p.fingerprints
  · obtain ⟨rfl, rfl⟩ | ⟨rfl, rfl⟩ := sides.joins
    · simp [hp, once hp, eq_comm]
    · simp [hp, once hp, eq_comm]
  · by_cases hq : h ∈ q.fingerprints
    · obtain ⟨rfl, rfl⟩ | ⟨rfl, rfl⟩ := sides.joins
      · simp [hp, hq, eq_comm]
      · simp [hp, hq, eq_comm]
    · obtain ⟨rfl, rfl⟩ | ⟨rfl, rfl⟩ := sides.joins
      · simp [hp, hq]
      · simp [hp, hq]

theorem Sides.inboundRoute_eq_ok_iff (sides : n.Sides s p q) :
    n.inboundRoute m = .ok (a, b) ↔ a = q ∧ b = p ∧ m.id = n.id ∧ m.sender ∈ q.fingerprints ∧
      m.receiver ∈ p.fingerprints := by
  have owned := sides.isOwned
  have counter := sides.isCounter
  unfold inboundRoute
  by_cases id_eq : m.id = n.id
  · simp only [id_eq, ne_eq, not_true_eq_false, if_false, bind_eq_ok_iff,
      sides.partyByFingerprint_eq_ok_iff, true_and]
    constructor
    · rintro ⟨x, hx, y, hy, route⟩
      obtain ⟨rfl, hx⟩ | ⟨rfl, hx⟩ := hx <;> obtain ⟨rfl, hy⟩ | ⟨rfl, hy⟩ := hy <;>
        simp [owned, counter, throw, throwThe, MonadExceptOf.throw, bind, Except.bind, pure,
          Except.pure] at route
      obtain ⟨rfl, rfl⟩ := route
      exact ⟨rfl, rfl, hx, hy⟩
    · rintro ⟨rfl, rfl, hx, hy⟩
      exact ⟨_, .inr ⟨rfl, hx⟩, _, .inl ⟨rfl, hy⟩, by simp [owned, counter, pure, Except.pure]⟩
  · simp [id_eq, throw, throwThe, MonadExceptOf.throw, bind, Except.bind]

theorem checkInbound_eq_ok_iff : n.checkInbound ctx a m = .ok () ↔
    n.checkTurn a m.kind ctx.now = .ok () ∧ n.checkContent ctx m = .ok () ∧
      checkTimestamp ctx m.signature.timestamp = .ok () ∧
      a.verify m.signingBytes m.signature ctx.settings = .ok () := by
  simp only [checkInbound, check_bind_eq_ok_iff]

theorem checkContent_offer_eq_ok_iff {o : Offer} : n.checkContent ctx (.offer o) = .ok () ↔
    (o.contracts ≠ [] ∧ ¬ o.validUntil < o.validAfter ∧ ¬ o.validUntil < ctx.now) ∧
      o.contracts.forM (fun c => (ctx.templates.validate c).map fun _ => ()) = .ok () := by
  simp only [checkContent, check_bind_eq_ok_iff, Offer.validate, checkTerms_eq_ok_iff]

/-- What an update that was refused leaves: nothing changed, or the last offer was seen to have run
out. -/
def Stays (n : Negotiation) (now : Instant) (n' : Negotiation) : Prop :=
  n' = n ∨ n' = n.notice now

theorem Sides.receive_eq_ok_iff (sides : n.Sides s p q) :
    n.receive ctx m = (.ok (), n') ↔ n' = n.apply m p ∧ n.Admits ctx q p m ∧
      checkTimestamp ctx m.signature.timestamp = .ok () := by
  unfold receive
  constructor
  · intro received
    split at received
    · cases received
    next x y route =>
      obtain ⟨rfl, rfl, id_eq, sender_mem, receiver_mem⟩ := sides.inboundRoute_eq_ok_iff.1 route
      split at received
      · cases received
      next checked =>
        cases received
        obtain ⟨turn, content, stamped, verified⟩ := checkInbound_eq_ok_iff.1 checked
        exact ⟨rfl, ⟨id_eq, sender_mem, receiver_mem, turn, content, verified⟩, stamped⟩
  · rintro ⟨rfl, ⟨id_eq, sender_mem, receiver_mem, turn, content, verified⟩, stamped⟩
    have route : n.inboundRoute m = .ok (q, p) :=
      sides.inboundRoute_eq_ok_iff.2 ⟨rfl, rfl, id_eq, sender_mem, receiver_mem⟩
    have checked : n.checkInbound ctx q m = .ok () :=
      checkInbound_eq_ok_iff.2 ⟨turn, content, stamped, verified⟩
    simp only [route, checked]

theorem notice_eq_withStatus (n : Negotiation) (now : Instant) :
    ∃ status, n.notice now = { n with status } := by
  unfold notice
  split
  · exact ⟨.expired, rfl⟩
  · exact ⟨n.status, rfl⟩

theorem Stays.eq_withStatus (stays : n.Stays now n') : ∃ status, n' = { n with status } := by
  obtain rfl | rfl := stays
  · exact ⟨n'.status, rfl⟩
  · exact n.notice_eq_withStatus now

/-- What an update leaves that was refused with an error: nothing changed, or the last offer was seen
to have run out, and the error says so. -/
inductive Refuses (n : Negotiation) (now : Instant) : Error → Negotiation → Prop
  | still (e : Error) : Refuses n now e n
  | lapsed (reason : String) (lapsed : n.hasLapsed now = true) :
    Refuses n now (.badRequest .negotiationExpired reason) { n with status := .expired }

theorem Refuses.stays {e : Error} (refuses : n.Refuses now e n') : n.Stays now n' := by
  cases refuses with
  | still => exact .inl rfl
  | lapsed reason lapsed => exact .inr (by simp [notice, lapsed])

theorem checkTurn_of_lapsed {kind : MessageKind} (lapsed : n.hasLapsed now = true) :
    ∃ reason, n.checkTurn a kind now = .error (.badRequest .negotiationExpired reason) := by
  obtain ⟨⟨live, offering⟩, -⟩ : (n.retired = false ∧ n.status = .offering) ∧
      n.lastOffer?.any (·.isExpired now) = true := by
    simpa [hasLapsed] using lapsed
  unfold checkTurn
  simp only [live, offering, lapsed, Bool.false_eq_true, if_false, if_true]
  exact ⟨_, rfl⟩

theorem refuses_notice {e : Error}
    (told : n.hasLapsed now = true → ∃ reason, e = .badRequest .negotiationExpired reason) :
    n.Refuses now e (n.notice now) := by
  unfold notice
  split
  next lapsed =>
    obtain ⟨reason, rfl⟩ := told lapsed
    exact .lapsed reason lapsed
  · exact .still e

theorem refuses_of_receive {e : Error} (refused : n.receive ctx m = (.error e, n')) :
    n.Refuses ctx.now e n' := by
  unfold receive at refused
  split at refused
  · cases refused
    exact .still e
  next sender receiver _ =>
    split at refused
    next e' checked =>
      cases refused
      refine refuses_notice fun lapsed => ?_
      obtain ⟨reason, turn⟩ : ∃ reason, n.checkTurn sender m.kind ctx.now =
          .error (.badRequest .negotiationExpired reason) := checkTurn_of_lapsed lapsed
      unfold checkInbound at checked
      rw [turn] at checked
      cases checked
      exact ⟨reason, rfl⟩
    · cases refused

theorem stays_of_receive {e : Error} (refused : n.receive ctx m = (.error e, n')) :
    n.Stays ctx.now n' :=
  (refuses_of_receive refused).stays

@[simp] theorem checkContent_withSum (sum : Option (List UInt8)) :
    n.checkContent ctx (m.withSum sum) = n.checkContent ctx m := by
  cases m <;> rfl

structure Drafted (n : Negotiation) (ctx : UpdateContext) (kind : MessageKind)
    (sender receiver : Party) (scheme : SignatureScheme) (m : Message) : Prop where
  id_eq : m.id = n.id
  kind_eq : m.kind = kind
  sender_eq : m.sender = sender.preferredFingerprint
  receiver_eq : m.receiver = receiver.preferredFingerprint
  content : n.checkContent ctx m = .ok ()
  signature_eq : m.signature = .unsigned ctx.now scheme

theorem Drafted.admits_sign {kind : MessageKind} {key : OwnedKey}
    (drafted : n.Drafted ctx kind a b key.scheme m) (sender_built : a.Built ctx.settings)
    (receiver_built : b.Built ctx.settings) (owned : a.key = some key)
    (turn : n.checkTurn a kind ctx.now = .ok ()) :
    n.Admits ctx a b (m.sign key.scheme key.seed) := by
  have some_accepted := sender_built.accepted_ne_nil owned
  refine ⟨?_, ?_, ?_, ?_, ?_, ?_⟩
  · rw [Message.sign, Message.id_withSum, drafted.id_eq]
  · rw [Message.sign, Message.sender_withSum, drafted.sender_eq]
    exact sender_built.preferredFingerprint_mem some_accepted
  · rw [Message.sign, Message.receiver_withSum, drafted.receiver_eq]
    exact receiver_built.preferredFingerprint_mem some_accepted
  · rw [Message.sign, Message.kind_withSum, drafted.kind_eq]
    exact turn
  · rw [Message.sign, checkContent_withSum]
    exact drafted.content
  · rw [Message.sign, Message.signingBytes_withSum, Message.signature_withSum]
    refine sender_built.verify_sign owned rfl ?_ rfl
    simp [drafted.signature_eq, Signature.unsigned]

/-- How preparing a message of an owned party ends: it is refused, or a message is ready. -/
inductive Prepares (n : Negotiation) (ctx : UpdateContext) (sender receiver : Party) :
    Except Error Prepared × Negotiation → Prop
  | refused (e : Error) (n' : Negotiation) (stays : n.Stays ctx.now n') :
    Prepares n ctx sender receiver (.error e, n')
  | ready (m : Message) (admits : n.Admits ctx sender receiver m) :
    Prepares n ctx sender receiver (.ok ⟨n.id, n.offers.length, n.status, receiver, m⟩, n)

theorem Prepares.of_ok {r : Except Error Prepared × Negotiation} {prepared : Prepared}
    (prepares : n.Prepares ctx a b r) (ready : r.1 = .ok prepared) :
    n.Admits ctx a b prepared.message ∧
      r = (.ok ⟨n.id, n.offers.length, n.status, b, prepared.message⟩, n) ∧
      prepared = ⟨n.id, n.offers.length, n.status, b, prepared.message⟩ := by
  cases prepares with
  | refused e n' stays => cases ready
  | ready m admits =>
    cases ready
    exact ⟨admits, rfl, rfl⟩

theorem prepare_eq {kind : MessageKind} {key : OwnedKey}
    {draft : Party → SignatureScheme → Except Error Message} (found : n.counterpartOf p = .ok q)
    (owned : p.key = some key) (turn : n.checkTurn p kind ctx.now = .ok ()) :
    n.prepare ctx p kind draft = ((draft q key.scheme).map fun m =>
      ⟨n.id, n.offers.length, n.status, q, m.sign key.scheme key.seed⟩, n) := by
  unfold prepare
  simp only [found, Party.ownedKey_eq_ok_iff.2 owned, turn, notice_of_checkTurn turn, bind,
    Except.bind, pure, Except.pure]
  cases draft q key.scheme with
  | error e => rfl
  | ok m => rfl

theorem Sides.prepares {kind : MessageKind}
    {draft : Party → SignatureScheme → Except Error Message}
    (sides : n.Sides ctx.settings p q)
    (drafts : ∀ {receiver scheme m}, draft receiver scheme = .ok m →
      n.Drafted ctx kind p receiver scheme m) :
    n.Prepares ctx p q (n.prepare ctx p kind draft) := by
  obtain ⟨key, owned⟩ := Option.isSome_iff_exists.1 sides.isOwned
  cases turn : n.checkTurn p kind ctx.now with
  | error e =>
    unfold prepare
    simp only [sides.counterpartOf_eq, Party.ownedKey_eq_ok_iff.2 owned, turn, bind, Except.bind,
      pure, Except.pure]
    exact .refused e _ (.inr rfl)
  | ok u =>
    rw [prepare_eq sides.counterpartOf_eq owned turn]
    cases made : draft q key.scheme with
    | error e => exact .refused e n (.inl rfl)
    | ok m =>
      exact .ready _ ((drafts made).admits_sign sides.owned_built sides.counter_built owned turn)

theorem prepareOffer_prepares {validAfter validUntil : Instant} {contracts : List Contract}
    (sides : n.Sides ctx.settings p q) :
    n.Prepares ctx p q (n.prepareOffer ctx p validAfter validUntil contracts) := by
  refine sides.prepares fun {receiver scheme m} made => ?_
  simp only [bind_eq_ok_iff] at made
  obtain ⟨_, known, _, valid, made⟩ := made
  cases made
  refine ⟨rfl, rfl, rfl, rfl, ?_, rfl⟩
  simp only [checkContent, bind_eq_ok_iff]
  exact ⟨_, valid, known⟩

theorem Sides.prepareOffer_eq_ok {validAfter validUntil : Instant} {contracts : List Contract}
    (sides : n.Sides ctx.settings p q) (turn : n.checkTurn p .offer ctx.now = .ok ())
    (known : contracts.forM (fun c => (ctx.templates.validate c).map fun _ => ()) = .ok ())
    (valid : checkTerms contracts validAfter.canonical validUntil.canonical ctx.now = .ok ()) :
    ∃ o, n.prepareOffer ctx p validAfter validUntil contracts =
      (.ok ⟨n.id, n.offers.length, n.status, q, .offer o⟩, n) ∧
        o.validUntil = validUntil.canonical := by
  obtain ⟨key, owned⟩ := Option.isSome_iff_exists.1 sides.isOwned
  unfold prepareOffer
  rw [prepare_eq sides.counterpartOf_eq owned turn]
  simp only [known, Offer.validate, valid, bind, Except.bind, pure, Except.pure]
  exact ⟨_, rfl, rfl⟩

theorem offerHash_eq_ok {h : Digest} (named : n.offerHash s = .ok h) :
    ∃ last, n.lastOffer? = some last ∧ h = .of s.preferred (Message.offer last).canonicalBytes := by
  unfold offerHash currentOffer at named
  cases last_eq : n.lastOffer? with
  | none => simp [last_eq, bind, Except.bind] at named
  | some last =>
    simp only [last_eq, bind_eq_ok_iff, Except.ok.injEq, exists_eq_left', pure, Except.pure] at named
    exact ⟨last, rfl, named.symm⟩

theorem checkOfferHash_offerHash {h : Digest} (some_accepted : s.accepted ≠ [])
    (named : n.offerHash s = .ok h) : n.checkOfferHash s h = .ok () := by
  obtain ⟨last, last_eq, rfl⟩ := offerHash_eq_ok named
  exact checkOfferHash_eq_ok_iff.2
    ⟨Settings.preferred_mem some_accepted, last, last_eq, (Digest.verifies_iff _ _).2 rfl⟩

theorem Sides.accepted_ne_nil (sides : n.Sides s p q) : s.accepted ≠ [] := by
  obtain ⟨key, owned⟩ := Option.isSome_iff_exists.1 sides.isOwned
  exact sides.owned_built.accepted_ne_nil owned

theorem prepareAcceptance_prepares (sides : n.Sides ctx.settings p q) :
    n.Prepares ctx p q (n.prepareAcceptance ctx p) := by
  refine sides.prepares fun {receiver scheme m} made => ?_
  simp only [bind_eq_ok_iff] at made
  obtain ⟨h, named, made⟩ := made
  cases made
  exact ⟨rfl, rfl, rfl, rfl, checkOfferHash_offerHash sides.accepted_ne_nil named, rfl⟩

theorem prepareAcceptance_eq_ok {last : Offer} (found : n.counterpartOf p = .ok q)
    (isOwned : p.isOwned = true) (turn : n.checkTurn p .acceptance ctx.now = .ok ())
    (last_eq : n.lastOffer? = some last) :
    ∃ x, n.prepareAcceptance ctx p =
      (.ok ⟨n.id, n.offers.length, n.status, q, .acceptance x⟩, n) := by
  obtain ⟨key, owned⟩ := Option.isSome_iff_exists.1 isOwned
  unfold prepareAcceptance
  rw [prepare_eq found owned turn]
  simp only [offerHash, currentOffer, last_eq, bind, Except.bind, pure, Except.pure, Except.map]
  exact ⟨_, rfl⟩

theorem prepareRejection_prepares (sides : n.Sides ctx.settings p q) :
    n.Prepares ctx p q (n.prepareRejection ctx p) := by
  refine sides.prepares fun {receiver scheme m} made => ?_
  simp only [bind_eq_ok_iff] at made
  obtain ⟨h, named, made⟩ := made
  cases made
  exact ⟨rfl, rfl, rfl, rfl, checkOfferHash_offerHash sides.accepted_ne_nil named, rfl⟩

theorem commit_ready (turn : n.checkTurn a m.kind now = .ok ()) :
    n.commit ⟨⟨n.id, n.offers.length, n.status, b, m⟩⟩ = (.ok m, n.apply m b) := by
  have live : n.retired = false := (checkTurn_eq_ok_iff.1 turn).1
  simp [commit, fits, live]

end Negotiation

end Parley
