import Parley.Proofs.Negotiation.Mirror
import Parley.Proofs.Negotiation.Register

namespace Parley.Negotiation

variable {n n' n'' : Negotiation} {ctx : UpdateContext} {m : Message} {now : Instant} {a b : Party}
variable {kind : MessageKind} {prepared : Prepared}

inductive Deed where
  | prepare (ctx : UpdateContext) (actor : Party) (ask : Ask)
  | commit (d : Delivered)
  | receive (ctx : UpdateContext) (m : Message)

def after (n : Negotiation) : Deed → Negotiation
  | .prepare ctx actor ask => (n.prepareFor ctx actor ask).2
  | .commit d => (n.commit d).2
  | .receive ctx m => (n.receive ctx m).2

def Opens (status : NegotiationStatus) (kind : MessageKind) : Prop :=
  status = .initial ∧ kind = .offer ∨ status = .offering

theorem opens_of_checkTurn (turn : n.checkTurn a kind now = .ok ()) : Opens n.status kind := by
  obtain ⟨-, opening | ⟨offering, -⟩⟩ := checkTurn_eq_ok_iff.1 turn
  · exact .inl opening
  · exact .inr offering

theorem prepare_eq_ok {draft : Party → SignatureScheme → Except Error Message}
    (kinds : ∀ {receiver scheme m}, draft receiver scheme = .ok m → m.kind = kind)
    (ready : n.prepare ctx a kind draft = (.ok prepared, n')) :
    n' = n ∧ prepared = ⟨n.id, n.offers.length, n.status, prepared.receiver, prepared.message⟩ ∧
      n.checkTurn a prepared.message.kind ctx.now = .ok () := by
  unfold prepare at ready
  dsimp only at ready
  split at ready
  · cases ready
  next receiver key _ =>
    simp only [Prod.mk.injEq, bind_eq_ok_iff] at ready
    obtain ⟨⟨_, turn, m, drafted, made⟩, rfl⟩ := ready
    cases made
    refine ⟨notice_of_checkTurn turn, rfl, ?_⟩
    rw [Message.sign, Message.kind_withSum, kinds drafted]
    exact turn

theorem counterpartOf_eq_ok (found : n.counterpartOf a = .ok b) :
    n.first.name = a.name ∧ b = n.second ∨ n.second.name = a.name ∧ b = n.first := by
  unfold counterpartOf at found
  split at found
  next here =>
    cases found
    exact .inl ⟨here, rfl⟩
  · split at found
    next here =>
      cases found
      exact .inr ⟨here, rfl⟩
    · cases found

theorem draft_of_prepare {draft : Party → SignatureScheme → Except Error Message}
    (ready : n.prepare ctx a kind draft = (.ok prepared, n')) :
    ∃ (key : OwnedKey) (m : Message), n.counterpartOf a = .ok prepared.receiver ∧
      draft prepared.receiver key.scheme = .ok m ∧
      prepared.message = m.sign key.scheme key.seed := by
  unfold prepare at ready
  dsimp only at ready
  split at ready
  · cases ready
  next receiver key outbound =>
    simp only [bind_eq_ok_iff] at outbound
    obtain ⟨_, found, _, _, same⟩ := outbound
    cases same
    simp only [Prod.mk.injEq, bind_eq_ok_iff] at ready
    obtain ⟨⟨_, turn, m, drafted, made⟩, rfl⟩ := ready
    cases made
    exact ⟨key, m, found, drafted, rfl⟩

/-- The message that is drafted for what an owner asks, from one party to the other: an offer of known
contracts that has not run out, or one that closes the negotiation and names its last offer. -/
inductive Drafts (n : Negotiation) (ctx : UpdateContext) (a b : Party) (scheme : SignatureScheme) :
    Ask → Message → Prop
  | offer {validAfter validUntil : Instant} {contracts : List Contract}
    (known : contracts.forM (fun c => (ctx.templates.validate c).map fun _ => ()) = .ok ())
    (valid : checkTerms contracts validAfter.canonical validUntil.canonical ctx.now = .ok ()) :
    Drafts n ctx a b scheme (.offer validAfter validUntil contracts)
      (.offer ⟨n.id, a.preferredFingerprint, b.preferredFingerprint, validAfter.canonical,
        validUntil.canonical, contracts, .unsigned ctx.now scheme⟩)
  | acceptance {h : Digest} (named : n.offerHash ctx.settings = .ok h) :
    Drafts n ctx a b scheme .acceptance
      (.acceptance ⟨n.id, a.preferredFingerprint, b.preferredFingerprint, h,
        .unsigned ctx.now scheme⟩)
  | rejection {h : Digest} (named : n.offerHash ctx.settings = .ok h) :
    Drafts n ctx a b scheme .rejection
      (.rejection ⟨n.id, a.preferredFingerprint, b.preferredFingerprint, h,
        .unsigned ctx.now scheme⟩)

theorem drafts_of_prepareFor {ask : Ask} (ready : n.prepareFor ctx a ask = (.ok prepared, n')) :
    ∃ (key : OwnedKey) (m : Message), n.counterpartOf a = .ok prepared.receiver ∧
      n.Drafts ctx a prepared.receiver key.scheme ask m ∧
      prepared.message = m.sign key.scheme key.seed := by
  cases ask with
  | offer validAfter validUntil contracts =>
    rw [prepareFor, prepareOffer] at ready
    obtain ⟨key, m, found, drafted, signed⟩ := draft_of_prepare ready
    simp only [bind_eq_ok_iff] at drafted
    obtain ⟨_, known, _, valid, drafted⟩ := drafted
    cases drafted
    exact ⟨key, _, found, .offer known valid, signed⟩
  | acceptance =>
    rw [prepareFor, prepareAcceptance] at ready
    obtain ⟨key, m, found, drafted, signed⟩ := draft_of_prepare ready
    simp only [bind_eq_ok_iff] at drafted
    obtain ⟨h, named, drafted⟩ := drafted
    cases drafted
    exact ⟨key, _, found, .acceptance named, signed⟩
  | rejection =>
    rw [prepareFor, prepareRejection] at ready
    obtain ⟨key, m, found, drafted, signed⟩ := draft_of_prepare ready
    simp only [bind_eq_ok_iff] at drafted
    obtain ⟨h, named, drafted⟩ := drafted
    cases drafted
    exact ⟨key, _, found, .rejection named, signed⟩

theorem prepareFor_eq_prepare (n : Negotiation) (ctx : UpdateContext) (actor : Party) (ask : Ask) :
    ∃ kind draft, n.prepareFor ctx actor ask = n.prepare ctx actor kind draft := by
  cases ask with
  | offer validAfter validUntil contracts =>
    rw [prepareFor, prepareOffer]
    exact ⟨_, _, rfl⟩
  | acceptance =>
    rw [prepareFor, prepareAcceptance]
    exact ⟨_, _, rfl⟩
  | rejection =>
    rw [prepareFor, prepareRejection]
    exact ⟨_, _, rfl⟩

theorem counterpart_of_prepareFor {ask : Ask}
    (ready : n.prepareFor ctx a ask = (.ok prepared, n')) :
    n.counterpartOf a = .ok prepared.receiver := by
  obtain ⟨-, -, found, -, -⟩ := drafts_of_prepareFor ready
  exact found

theorem ends_of_prepareFor {ask : Ask} (ready : n.prepareFor ctx a ask = (.ok prepared, n')) :
    prepared.message.sender = a.preferredFingerprint ∧
      prepared.message.receiver = prepared.receiver.preferredFingerprint := by
  obtain ⟨key, m, -, drafts, signed⟩ := drafts_of_prepareFor ready
  rw [signed, Message.sign, Message.sender_withSum, Message.receiver_withSum]
  cases drafts <;> exact ⟨rfl, rfl⟩

theorem parties_of_prepareFor {ps : Parties} {ask : Ask} (wf : ps.directory.WellFormed)
    (first_mem : n.first ∈ ps.directory.entries) (second_mem : n.second ∈ ps.directory.entries)
    (isCounter : n.second.isOwned = false) (mem : a ∈ ps.directory.entries)
    (ready : n.prepareFor ctx a ask = (.ok prepared, n')) :
    n.first = a ∧ n.second = prepared.receiver := by
  have isOwned := isOwned_of_prepareFor (congrArg Prod.fst ready)
  obtain ⟨name_eq, same⟩ | ⟨name_eq, -⟩ := counterpartOf_eq_ok (counterpart_of_prepareFor ready)
  · exact ⟨wf.eq_of_name first_mem mem name_eq, same.symm⟩
  · rw [wf.eq_of_name second_mem mem name_eq, isOwned] at isCounter
    cases isCounter

theorem prepareFor_eq_ok {ask : Ask} (ready : n.prepareFor ctx a ask = (.ok prepared, n')) :
    n' = n ∧ prepared = ⟨n.id, n.offers.length, n.status, prepared.receiver, prepared.message⟩ ∧
      n.checkTurn a prepared.message.kind ctx.now = .ok () := by
  cases ask with
  | offer validAfter validUntil contracts =>
    rw [prepareFor, prepareOffer] at ready
    refine prepare_eq_ok (fun {receiver scheme m} drafted => ?_) ready
    simp only [bind_eq_ok_iff] at drafted
    obtain ⟨_, _, _, _, drafted⟩ := drafted
    cases drafted
    rfl
  | acceptance =>
    rw [prepareFor, prepareAcceptance] at ready
    refine prepare_eq_ok (fun {receiver scheme m} drafted => ?_) ready
    simp only [bind_eq_ok_iff] at drafted
    obtain ⟨_, _, drafted⟩ := drafted
    cases drafted
    rfl
  | rejection =>
    rw [prepareFor, prepareRejection] at ready
    refine prepare_eq_ok (fun {receiver scheme m} drafted => ?_) ready
    simp only [bind_eq_ok_iff] at drafted
    obtain ⟨_, _, drafted⟩ := drafted
    cases drafted
    rfl

theorem stays_of_prepare {draft : Party → SignatureScheme → Except Error Message} :
    n.Stays ctx.now (n.prepare ctx a kind draft).2 := by
  unfold prepare
  dsimp only
  split
  · exact .inl rfl
  · exact .inr rfl

theorem stays_of_prepareFor (n : Negotiation) (ctx : UpdateContext) (a : Party) (ask : Ask) :
    n.Stays ctx.now (n.prepareFor ctx a ask).2 := by
  obtain ⟨kind, draft, same⟩ := n.prepareFor_eq_prepare ctx a ask
  rw [same]
  exact stays_of_prepare

theorem refuses_of_prepare {e : Error} {draft : Party → SignatureScheme → Except Error Message}
    (refused : n.prepare ctx a kind draft = (.error e, n')) : n.Refuses ctx.now e n' := by
  unfold prepare at refused
  dsimp only at refused
  split at refused
  · cases refused
    exact .still e
  · obtain ⟨failed, rfl⟩ := Prod.mk.inj refused
    refine refuses_notice fun lapsed => ?_
    obtain ⟨reason, turn⟩ : ∃ reason, n.checkTurn a kind ctx.now =
        .error (.badRequest .negotiationExpired reason) := checkTurn_of_lapsed lapsed
    rw [turn] at failed
    cases failed
    exact ⟨reason, rfl⟩

theorem refuses_of_prepareFor {e : Error} {ask : Ask}
    (refused : n.prepareFor ctx a ask = (.error e, n')) : n.Refuses ctx.now e n' := by
  obtain ⟨kind, draft, same⟩ := n.prepareFor_eq_prepare ctx a ask
  rw [same] at refused
  exact refuses_of_prepare refused

theorem fits_iff : n.fits prepared = true ↔ n.retired = false ∧ prepared.id = n.id ∧
    prepared.offersLogged = n.offers.length ∧ prepared.status = n.status := by
  simp [fits, and_assoc]

theorem commit_eq_ok_iff {d : Delivered} : n.commit d = (.ok m, n') ↔
    n.fits d.prepared = true ∧ m = d.prepared.message ∧
      n' = n.apply d.prepared.message d.prepared.receiver := by
  unfold commit
  by_cases fits : n.fits d.prepared = true
  · simp [fits, eq_comm]
  · simp [fits]

theorem inboundRoute_eq_ok (route : n.inboundRoute m = .ok (a, b)) :
    m.id = n.id ∧ n.partyByFingerprint m.sender = .ok a ∧ n.partyByFingerprint m.receiver = .ok b ∧
      a.isOwned = false ∧ b.isOwned = true := by
  unfold inboundRoute at route
  split at route
  · cases route
  next same =>
    simp only [bind_eq_ok_iff] at route
    obtain ⟨sender, found, receiver, found', route⟩ := route
    split at route
    · cases route
    next travels =>
      cases route
      exact ⟨not_not.1 same, found, found', by simpa using travels⟩

theorem route_of_receive (received : n.receive ctx m = (.ok (), n')) : ∃ a b,
    n.inboundRoute m = .ok (a, b) ∧ n.checkInbound ctx a m = .ok () ∧ n' = n.apply m b := by
  unfold receive at received
  split at received
  · cases received
  next sender receiver route =>
    split at received
    · cases received
    next checked =>
      cases received
      exact ⟨sender, receiver, route, checked, rfl⟩

theorem receive_eq_ok (received : n.receive ctx m = (.ok (), n')) :
    ∃ b, n.retired = false ∧ Opens n.status m.kind ∧ n' = n.apply m b := by
  obtain ⟨a, b, -, checked, same⟩ := route_of_receive received
  have turn := (checkInbound_eq_ok_iff.1 checked).1
  exact ⟨b, (checkTurn_eq_ok_iff.1 turn).1, opens_of_checkTurn turn, same⟩

theorem after_cases (n : Negotiation) (deed : Deed) :
    n.after deed = n ∨ (∃ now, n.after deed = n.notice now) ∨
      ∃ m b, n.retired = false ∧ n.after deed = n.apply m b ∧ (Opens n.status m.kind ∨
        ∃ d, deed = .commit d ∧ d.prepared.status = n.status ∧ d.prepared.message = m) := by
  cases deed with
  | prepare ctx actor ask =>
    obtain same | noticed := n.stays_of_prepareFor ctx actor ask
    · exact .inl same
    · exact .inr (.inl ⟨ctx.now, noticed⟩)
  | commit d =>
    by_cases fits : n.fits d.prepared = true
    · obtain ⟨live, -, -, status⟩ := fits_iff.1 fits
      have committed : n.commit d = (.ok d.prepared.message, _) :=
        commit_eq_ok_iff.2 ⟨fits, rfl, rfl⟩
      exact .inr (.inr ⟨_, _, live, congrArg Prod.snd committed, .inr ⟨d, rfl, status, rfl⟩⟩)
    · exact .inl (by simp [after, commit, fits])
  | receive ctx m =>
    rw [after]
    cases received : n.receive ctx m with
    | mk result n' =>
      cases result with
      | error e =>
        obtain same | noticed := stays_of_receive received
        · exact .inl same
        · exact .inr (.inl ⟨ctx.now, noticed⟩)
      | ok u =>
        obtain ⟨b, live, opens, rfl⟩ := receive_eq_ok received
        exact .inr (.inr ⟨m, b, live, rfl, .inl opens⟩)

structure Follows (n n' : Negotiation) : Prop where
  key_eq : n'.key = n.key
  gone : n.retired = true → n' = n
  opened : n.status ≠ .initial → n'.status ≠ .initial ∧ n'.retired = n.retired
  grown : n.offers <+: n'.offers

theorem Follows.refl : n.Follows n :=
  ⟨rfl, fun _ => rfl, fun opened => ⟨opened, rfl⟩, List.prefix_rfl⟩

theorem Follows.trans (first : n.Follows n') (second : n'.Follows n'') : n.Follows n'' where
  key_eq := second.key_eq.trans first.key_eq
  gone retired := by
    obtain rfl := first.gone retired
    exact second.gone retired
  opened opened := by
    obtain ⟨opened', same⟩ := first.opened opened
    obtain ⟨opened'', same'⟩ := second.opened opened'
    exact ⟨opened'', same'.trans same⟩
  grown := first.grown.trans second.grown

theorem hasLapsed_iff : n.hasLapsed now = true ↔ n.retired = false ∧ n.status = .offering ∧
    n.lastOffer?.any (·.isExpired now) = true := by
  simp [hasLapsed, and_assoc]

theorem hasLapsed_eq_false_iff {last : Offer} (live : n.retired = false)
    (offering : n.status = .offering) (last_eq : n.lastOffer? = some last) :
    n.hasLapsed now = false ↔ ¬ last.validUntil < now := by
  simp [hasLapsed, live, offering, last_eq, Offer.isExpired]

theorem follows_notice (n : Negotiation) (now : Instant) : n.Follows (n.notice now) := by
  unfold notice
  split
  next lapsed =>
    obtain ⟨live, -, -⟩ := hasLapsed_iff.1 lapsed
    refine ⟨rfl, fun retired => ?_, fun _ => ⟨by simp, rfl⟩, List.prefix_rfl⟩
    rw [live] at retired
    cases retired
  · exact .refl

theorem status_apply_ne : (n.apply m b).status ≠ .initial := by
  cases m <;> rintro ⟨⟩

theorem offers_prefix_apply : n.offers <+: (n.apply m b).offers := by
  cases m with
  | offer o => exact List.prefix_append _ _
  | acceptance x => exact List.prefix_rfl
  | rejection x => exact List.prefix_rfl

theorem follows_apply (live : n.retired = false) : n.Follows (n.apply m b) where
  key_eq := key_apply
  gone retired := by
    rw [live] at retired
    cases retired
  opened _ := ⟨status_apply_ne, retired_apply⟩
  grown := offers_prefix_apply

theorem follows_retire (live : n.retired = false) (initial : n.status = .initial) :
    n.Follows { n with retired := true } :=
  ⟨rfl, fun retired => absurd (live.symm.trans retired) (by simp),
    fun opened => absurd initial opened, List.prefix_rfl⟩

theorem after_follows (n : Negotiation) (deed : Deed) : n.Follows (n.after deed) := by
  obtain same | ⟨now, noticed⟩ | ⟨m, b, live, added, -⟩ := n.after_cases deed
  · rw [same]
    exact .refl
  · rw [noticed]
    exact n.follows_notice now
  · rw [added]
    exact follows_apply live

theorem retired_after (n : Negotiation) (deed : Deed) : (n.after deed).retired = n.retired := by
  obtain same | ⟨now, noticed⟩ | ⟨m, b, -, added, -⟩ := n.after_cases deed
  · rw [same]
  · obtain ⟨status, changed⟩ := n.notice_eq_withStatus now
    rw [noticed, changed]
  · rw [added]
    exact retired_apply

structure Blank (n : Negotiation) : Prop where
  offers : n.offers = []
  acceptance : n.acceptance = none
  rejection : n.rejection = none
  active : n.active = none

theorem blank_after {deed : Deed} (blank : n.status = .initial → n.Blank)
    (initial : (n.after deed).status = .initial) : (n.after deed).Blank := by
  by_cases before : n.status = .initial
  · obtain same | ⟨now, noticed⟩ | ⟨m, b, -, added, -⟩ := n.after_cases deed
    · rw [same]
      exact blank before
    · have running : n.hasLapsed now = false := by simp [hasLapsed, before]
      rw [noticed, notice, running]
      exact blank before
    · rw [added] at initial
      exact absurd initial status_apply_ne
  · exact absurd initial ((n.after_follows deed).opened before).1

end Parley.Negotiation
