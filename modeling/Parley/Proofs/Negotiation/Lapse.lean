import Parley.Proofs.Negotiation.Onward

namespace Parley

namespace Negotiation

variable {n : Negotiation} {ctx : UpdateContext} {m : Message} {a b : Party} {now : Instant}
variable {deed : Deed} {e : Error}

def outcome (n : Negotiation) : Deed → Except Error Unit
  | .prepare ctx actor ask => (n.prepareFor ctx actor ask).1.map fun _ => ()
  | .commit d => (n.commit d).1.map fun _ => ()
  | .receive ctx m => (n.receive ctx m).1

/-- That a deed is let in far enough to have the state looked at, and when that is: an order for a
party of the negotiation, by name, whose key is at hand, or a message under the negotiation's id from
a counter-party of it to an owned party of it. -/
inductive Enters (n : Negotiation) : Deed → Instant → Prop
  | prepare {ctx : UpdateContext} {actor : Party} (ask : Ask) (involved : n.involves actor.name = true)
    (owned : actor.isOwned = true) : Enters n (.prepare ctx actor ask) ctx.now
  | receive {ctx : UpdateContext} {m : Message} {sender receiver : Party} (id_eq : m.id = n.id)
    (sender_eq : n.partyByFingerprint m.sender = .ok sender)
    (receiver_eq : n.partyByFingerprint m.receiver = .ok receiver)
    (isCounter : sender.isOwned = false) (isOwned : receiver.isOwned = true) :
    Enters n (.receive ctx m) ctx.now

/-- That a deed finds the last offer of an open negotiation to have run out. -/
structure FindsLapsed (n : Negotiation) (deed : Deed) : Prop where
  unretired : n.retired = false
  offering : n.status = .offering
  late : ∃ now last, n.Enters deed now ∧ n.lastOffer? = some last ∧ last.validUntil < now

theorem counterpartOf_of_involves (involved : n.involves a.name = true) :
    ∃ b, n.counterpartOf a = .ok b := by
  unfold counterpartOf
  by_cases first : n.first.name = a.name
  · exact ⟨n.second, if_pos first⟩
  · have second : n.second.name = a.name := by simpa [involves, parties, first] using involved
    exact ⟨n.first, by rw [if_neg first, if_pos second]⟩

theorem involves_of_counterpartOf (found : n.counterpartOf a = .ok b) :
    n.involves a.name = true := by
  obtain ⟨name_eq, -⟩ | ⟨name_eq, -⟩ := counterpartOf_eq_ok found <;>
    simp [involves, parties, name_eq]

theorem route_of_enters (enters : n.Enters (.receive ctx m) now) :
    now = ctx.now ∧ ∃ a b, n.inboundRoute m = .ok (a, b) := by
  cases enters with
  | @receive _ _ sender receiver id_eq sender_eq receiver_eq isCounter isOwned =>
    refine ⟨rfl, sender, receiver, ?_⟩
    unfold inboundRoute
    simp [id_eq, sender_eq, receiver_eq, isCounter, isOwned, bind, Except.bind, pure, Except.pure]

theorem prepareFor_of_enters {ask : Ask} (enters : n.Enters (.prepare ctx a ask) now) :
    now = ctx.now ∧ (n.prepareFor ctx a ask).2 = n.notice now ∧
      ∃ kind, ∀ e, n.checkTurn a kind now = .error e →
        (n.prepareFor ctx a ask).1 = .error e := by
  obtain ⟨kind, draft, same⟩ := n.prepareFor_eq_prepare ctx a ask
  cases enters with
  | prepare _ involved owned =>
    obtain ⟨b, found⟩ := counterpartOf_of_involves involved
    obtain ⟨key, owned⟩ := Option.isSome_iff_exists.1 owned
    rw [same]
    unfold prepare
    simp only [found, Party.ownedKey_eq_ok_iff.2 owned, bind, Except.bind, pure, Except.pure]
    refine ⟨trivial, trivial, kind, fun e refused => ?_⟩
    rw [refused]

theorem after_of_not_enters (outside : ∀ now, ¬ n.Enters deed now)
    (failed : n.outcome deed = .error e) : n.after deed = n := by
  cases deed with
  | prepare ctx actor ask =>
    obtain ⟨kind, draft, same⟩ := n.prepareFor_eq_prepare ctx actor ask
    rw [after, same]
    unfold prepare
    dsimp only
    split
    · rfl
    next receiver key outbound =>
      simp only [bind_eq_ok_iff] at outbound
      obtain ⟨_, found, _, owned, -⟩ := outbound
      have isOwned : actor.isOwned = true :=
        Option.isSome_iff_exists.2 ⟨_, Party.ownedKey_eq_ok_iff.1 owned⟩
      exact absurd (.prepare ask (involves_of_counterpartOf found) isOwned) (outside ctx.now)
  | commit d =>
    rw [after]
    unfold outcome commit at failed
    unfold commit
    dsimp only at failed ⊢
    split
    next fits =>
      rw [if_pos fits] at failed
      cases failed
    · rfl
  | receive ctx m =>
    rw [after]
    unfold receive
    split
    · rfl
    next sender receiver route =>
      obtain ⟨id_eq, sender_eq, receiver_eq, isCounter, isOwned⟩ := inboundRoute_eq_ok route
      exact absurd (.receive id_eq sender_eq receiver_eq isCounter isOwned) (outside ctx.now)

theorem after_of_enters (enters : n.Enters deed now) (failed : n.outcome deed = .error e) :
    n.after deed = n.notice now := by
  cases deed with
  | prepare ctx actor ask =>
    obtain ⟨-, left, -⟩ := prepareFor_of_enters enters
    exact left
  | commit d => cases enters
  | receive ctx m =>
    obtain ⟨rfl, a, b, route⟩ := route_of_enters enters
    unfold outcome receive at failed
    unfold after receive
    simp only [route] at failed ⊢
    cases checked : n.checkInbound ctx a m with
    | error e' => rfl
    | ok u =>
      rw [checked] at failed
      cases failed

theorem outcome_of_lapsed (enters : n.Enters deed now) (lapsed : n.hasLapsed now = true) :
    ∃ reason, n.outcome deed = .error (.badRequest .negotiationExpired reason) := by
  cases deed with
  | prepare ctx actor ask =>
    obtain ⟨-, -, kind, told⟩ := prepareFor_of_enters enters
    obtain ⟨reason, turn⟩ : ∃ reason, n.checkTurn actor kind now =
        .error (.badRequest .negotiationExpired reason) := checkTurn_of_lapsed lapsed
    refine ⟨reason, ?_⟩
    rw [outcome, told _ turn]
    rfl
  | commit d => cases enters
  | receive ctx m =>
    obtain ⟨rfl, a, b, route⟩ := route_of_enters enters
    obtain ⟨reason, turn⟩ : ∃ reason, n.checkTurn a m.kind ctx.now =
        .error (.badRequest .negotiationExpired reason) := checkTurn_of_lapsed lapsed
    refine ⟨reason, ?_⟩
    unfold outcome receive checkInbound
    simp only [route, turn, bind, Except.bind]

theorem findsLapsed_iff :
    n.FindsLapsed deed ↔ ∃ now, n.Enters deed now ∧ n.hasLapsed now = true := by
  simp only [hasLapsed_iff, Option.any_eq_true, Offer.isExpired, decide_eq_true_eq]
  constructor
  · rintro ⟨unretired, offering, now, last, enters, last_eq, late⟩
    exact ⟨now, enters, unretired, offering, last, last_eq, late⟩
  · rintro ⟨now, enters, unretired, offering, last, last_eq, late⟩
    exact ⟨unretired, offering, now, last, enters, last_eq, late⟩

/-- A deed that fails leaves the negotiation as it is, unless it finds that the last offer has run out:
then it fails with just that error, and the status says so. What is made ready changes nothing. -/
theorem failed_leaves (n : Negotiation) (deed : Deed) :
    (∀ e, n.outcome deed = .error e → ¬ n.FindsLapsed deed → n.after deed = n) ∧
    (n.FindsLapsed deed → n.after deed = { n with status := .expired } ∧
      ∃ reason, n.outcome deed = .error (.badRequest .negotiationExpired reason)) ∧
    ∀ ctx actor ask, deed = .prepare ctx actor ask → n.outcome deed = .ok () → n.after deed = n := by
  refine ⟨fun e failed running => ?_, fun late => ?_, fun ctx actor ask same ready => ?_⟩
  · by_cases inside : ∃ now, n.Enters deed now
    · obtain ⟨now, enters⟩ := inside
      have current : ¬ n.hasLapsed now = true := fun lapsed =>
        running (findsLapsed_iff.2 ⟨now, enters, lapsed⟩)
      rw [after_of_enters enters failed, notice, if_neg current]
    · exact after_of_not_enters (not_exists.1 inside) failed
  · obtain ⟨now, enters, lapsed⟩ := findsLapsed_iff.1 late
    obtain ⟨reason, told⟩ := outcome_of_lapsed enters lapsed
    refine ⟨?_, reason, told⟩
    rw [after_of_enters enters told, notice, if_pos lapsed]
  · subst same
    rw [outcome] at ready
    rw [after]
    rcases prepared : n.prepareFor ctx actor ask with ⟨result, n'⟩
    rw [prepared] at ready
    cases result with
    | error e => cases ready
    | ok _ => exact (prepareFor_eq_ok prepared).1

end Negotiation

namespace Sample

open Negotiation

def awaiting (id : NegotiationId) : Negotiation :=
  (selling id).apply (offer id).message (offer id).receiver

def bare (id : NegotiationId) : Message :=
  .acceptance ⟨id, (counter "Buyer" buyerSeed).preferredFingerprint,
    (owned "Seller" sellerSeed).preferredFingerprint, template.preferredHash, .unsigned now .ed25519⟩

def newYear : Instant := ⟨1735689601, 0, now.nanoseconds_lt⟩

theorem bare_finds_lapsed :
    (awaiting 7).FindsLapsed (.receive ⟨templates, settings, newYear⟩ (bare 7)) := by
  have sides : (awaiting 7).Sides settings (owned "Seller" sellerSeed) (counter "Buyer" buyerSeed) :=
    (selling_sides 7).apply
  have accepted := sides.accepted_ne_nil
  have sender := sides.counter_built.preferredFingerprint_mem accepted
  have receiver := sides.owned_built.preferredFingerprint_mem accepted
  have enters : (awaiting 7).Enters (.receive ⟨templates, settings, newYear⟩ (bare 7)) newYear :=
    .receive rfl (sides.partyByFingerprint_eq_ok_iff.2 (.inr ⟨rfl, sender⟩))
      (sides.partyByFingerprint_eq_ok_iff.2 (.inl ⟨rfl, receiver⟩)) rfl rfl
  have ended : yearEnd.canonical < newYear := by decide
  exact ⟨rfl, rfl, newYear, _, enters, rfl, ended⟩

theorem bare_leaves :
    (awaiting 7).after (.receive ⟨templates, settings, newYear⟩ (bare 7)) =
      { awaiting 7 with status := .expired } ∧
    (∃ reason, (awaiting 7).outcome (.receive ⟨templates, settings, newYear⟩ (bare 7)) =
      .error (.badRequest .negotiationExpired reason)) ∧
    (∃ e, (awaiting 7).outcome (.receive ⟨templates, settings, newYear⟩ (bare 8)) = .error e) ∧
    (awaiting 7).after (.receive ⟨templates, settings, newYear⟩ (bare 8)) = awaiting 7 := by
  obtain ⟨-, late, -⟩ :=
    failed_leaves (awaiting 7) (.receive ⟨templates, settings, newYear⟩ (bare 7))
  obtain ⟨still, -, -⟩ :=
    failed_leaves (awaiting 7) (.receive ⟨templates, settings, newYear⟩ (bare 8))
  obtain ⟨expired, told⟩ := late bare_finds_lapsed
  have other : (awaiting 7).outcome (.receive ⟨templates, settings, newYear⟩ (bare 8)) =
      .error (.badRequest .unknownNegotiation "message for negotiation 8 sent to negotiation 7") := rfl
  refine ⟨expired, told, ⟨_, other⟩, still _ other fun finds => ?_⟩
  obtain ⟨-, -, now, last, enters, -, -⟩ := finds
  cases enters with
  | receive id_eq =>
    have apart : (8 : NegotiationId) ≠ 7 := by decide
    exact apart id_eq

end Sample

end Parley
