import Mathlib.Data.List.Chain
import Parley.Proofs.Proxy.Closing
import Parley.Proofs.Proxy.Ending
import Parley.Proofs.Template

namespace Parley

def Message.digests : Message → List Digest
  | .offer m => m.offeror :: m.receiver :: m.contracts.map Contract.templateHash
  | .acceptance m => [m.acceptor, m.offeror, m.offerHash]
  | .rejection m => [m.rejector, m.offeror, m.offerHash]

namespace Negotiation

variable {n n' : Negotiation} {ps : Parties} {templates : Templates} {s : Settings}
variable {ctx : UpdateContext} {m m' : Message} {a b : Party} {now : Instant}

def Answered (n : Negotiation) (m m' : Message) : Prop :=
  ∃ a ∈ n.parties, m.receiver ∈ a.fingerprints ∧ m'.sender ∈ a.fingerprints

/-- That the messages of a negotiation follow one another, each right in itself. -/
structure Orderly (templates : Templates) (s : Settings) (n : Negotiation) : Prop where
  alternates : n.messages.IsChain n.Answered
  unopened : n.messages = [] → n.active = none
  turn : ∀ m, n.messages.getLast? = some m →
    ∃ a ∈ n.parties, m.receiver ∈ a.fingerprints ∧ n.active = some a.name
  terms : ∀ o ∈ n.offers, o.contracts ≠ [] ∧ o.validAfter ≤ o.validUntil ∧
    ∀ c ∈ o.contracts, ∃ t, templates.validate c = .ok t
  accepted : ∀ m ∈ n.messages, m.signature.scheme.hashAlgorithm ∈ s.accepted ∧
    ∀ h ∈ m.digests, h.algorithm ∈ s.accepted

/-- An orderly exchange between an owned party and a counter-party that cannot be mistaken for one
another. -/
structure Conversation (ps : Parties) (templates : Templates) (s : Settings) (n : Negotiation) :
    Prop extends Orderly templates s n where
  owned_mem : n.first ∈ ps.directory.entries
  isOwned : n.first.isOwned = true
  counter_mem : n.second ∈ ps.directory.entries
  isCounter : n.second.isOwned = false
  apart : Directory.Apart n.first n.second
  travels : ∀ m ∈ n.messages, m.id = n.id ∧ ∃ a b, n.Joins a b ∧
    m.sender ∈ a.fingerprints ∧ m.receiver ∈ b.fingerprints

theorem Held.conversation (held : n.Held ps s) (sound : ps.Sound s)
    (orderly : n.Orderly templates s) : n.Conversation ps templates s where
  toOrderly := orderly
  owned_mem := held.owned_mem
  isOwned := held.isOwned
  counter_mem := held.counter_mem
  isCounter := held.isCounter
  apart := (held.sides sound).apart
  travels m mem := by
    obtain ⟨id_eq, a, b, joins, travels⟩ := held.recorded.signed m mem
    exact ⟨id_eq, a, b, joins, travels.sender_mem, travels.receiver_mem⟩

theorem orderly_start (id : NegotiationId) (a b : Party) : (start id a b).Orderly templates s where
  alternates := .nil
  unopened _ := rfl
  turn m last_eq := by cases last_eq
  terms o mem := by cases mem
  accepted m mem := by cases mem

theorem Orderly.withStatus (orderly : n.Orderly templates s) (status : NegotiationStatus)
    (retired : Bool) : { n with status, retired }.Orderly templates s where
  alternates := orderly.alternates
  unopened := orderly.unopened
  turn := orderly.turn
  terms := orderly.terms
  accepted := orderly.accepted

theorem Joins.mem_parties (joins : n.Joins a b) : a ∈ n.parties := by
  unfold parties
  obtain ⟨rfl, rfl⟩ | ⟨rfl, rfl⟩ := joins <;> simp

theorem exists_joins (mem : b ∈ n.parties) : ∃ a, n.Joins a b := by
  unfold parties at mem
  obtain rfl | mem := List.mem_cons.1 mem
  · exact ⟨n.second, .inr ⟨rfl, rfl⟩⟩
  · exact ⟨n.first, .inl ⟨rfl, (List.mem_singleton.1 mem).symm⟩⟩

theorem active_apply : (n.apply m b).active = some b.name := by
  cases m <;> rfl

theorem parties_apply : (n.apply m b).parties = n.parties := by
  cases m <;> rfl

theorem Orderly.addressed (orderly : n.Orderly templates s) (recorded : n.Recorded s)
    (joins : n.Joins a b) (names : a.name ≠ b.name) {kind : MessageKind}
    (turn : n.checkTurn a kind now = .ok ()) {last : Message}
    (last_eq : n.messages.getLast? = some last) : last.receiver ∈ a.fingerprints := by
  obtain ⟨-, ⟨initial, -⟩ | ⟨-, -, active⟩⟩ := checkTurn_eq_ok_iff.1 turn
  · rw [recorded.initial initial] at last_eq
    cases last_eq
  · obtain ⟨q, mem, addressed, active'⟩ := orderly.turn last last_eq
    obtain ⟨p, joins'⟩ := exists_joins mem
    obtain ⟨rfl, -⟩ := joins.eq_of_name joins' names (Option.some.inj (active'.symm.trans active))
    exact addressed

theorem Admits.terms {o : Offer} (admits : n.Admits ctx a b (.offer o)) :
    o.contracts ≠ [] ∧ o.validAfter ≤ o.validUntil ∧
      ∀ c ∈ o.contracts, ∃ t, ctx.templates.validate c = .ok t := by
  obtain ⟨⟨some_contracts, order, -⟩, known⟩ := checkContent_offer_eq_ok_iff.1 admits.content
  exact ⟨some_contracts, order, Templates.forM_validate_eq_ok_iff.1 known⟩

theorem Admits.digests_accepted (admits : n.Admits ctx a b m) (sender_built : a.Built ctx.settings)
    (receiver_built : b.Built ctx.settings) (defined : ctx.templates.Sound ctx.settings) :
    ∀ h ∈ m.digests, h.algorithm ∈ ctx.settings.accepted := by
  have sender := sender_built.algorithm_mem admits.sender_mem
  have receiver := receiver_built.algorithm_mem admits.receiver_mem
  intro h mem
  cases m with
  | offer o =>
    obtain rfl | mem := List.mem_cons.1 mem
    · exact sender
    · obtain rfl | mem := List.mem_cons.1 mem
      · exact receiver
      · obtain ⟨c, offered, rfl⟩ := List.mem_map.1 mem
        obtain ⟨t, fits⟩ := admits.terms.2.2 c offered
        exact defined.algorithm_mem fits
  | acceptance x =>
    have named := (checkOfferHash_eq_ok_iff.1 admits.content).1
    simp only [Message.digests, List.mem_cons, List.not_mem_nil, or_false] at mem
    obtain rfl | rfl | rfl := mem
    · exact sender
    · exact receiver
    · exact named
  | rejection x =>
    have named := (checkOfferHash_eq_ok_iff.1 admits.content).1
    simp only [Message.digests, List.mem_cons, List.not_mem_nil, or_false] at mem
    obtain rfl | rfl | rfl := mem
    · exact sender
    · exact receiver
    · exact named

theorem Sides.built (sides : n.Sides s n.first n.second) (joins : n.Joins a b) :
    a.Built s ∧ b.Built s := by
  obtain ⟨rfl, rfl⟩ | ⟨rfl, rfl⟩ := joins
  · exact ⟨sides.owned_built, sides.counter_built⟩
  · exact ⟨sides.counter_built, sides.owned_built⟩

theorem Orderly.apply (orderly : n.Orderly ctx.templates ctx.settings) (held : n.Held ps ctx.settings)
    (sound : ps.Sound ctx.settings) (defined : ctx.templates.Sound ctx.settings)
    (joins : n.Joins a b) (admits : n.Admits ctx a b m) :
    (n.apply m b).Orderly ctx.templates ctx.settings := by
  have sides := held.sides sound
  have names := sides.names_ne joins
  obtain ⟨sender_built, receiver_built⟩ := sides.built joins
  have longer := messages_apply (b := b) (held.recorded.closing_eq_nil admits.turn) (m := m)
  refine ⟨?_, ?_, ?_, ?_, ?_⟩
  · rw [longer]
    have answered : ∀ last ∈ n.messages.getLast?, n.Answered last m := fun last last_eq =>
      ⟨a, joins.mem_parties, orderly.addressed held.recorded joins names admits.turn last_eq,
        admits.sender_mem⟩
    have chain : (n.messages ++ [m]).IsChain n.Answered :=
      orderly.alternates.append (.singleton m) fun last last_eq next next_eq => by
        obtain rfl := Option.some.inj next_eq
        exact answered last last_eq
    unfold Answered at chain ⊢
    rw [parties_apply]
    exact chain
  · intro nothing
    rw [longer] at nothing
    simp at nothing
  · intro last last_eq
    rw [longer, List.getLast?_append, List.getLast?_singleton] at last_eq
    obtain rfl := Option.some.inj last_eq
    rw [parties_apply, active_apply]
    exact ⟨b, joins.symm.mem_parties, admits.receiver_mem, rfl⟩
  · intro o mem
    cases m with
    | offer o' =>
      obtain mem | mem := List.mem_append.1 mem
      · exact orderly.terms o mem
      · rw [List.mem_singleton.1 mem]
        exact admits.terms
    | acceptance x => exact orderly.terms o mem
    | rejection x => exact orderly.terms o mem
  · intro m' mem
    rw [longer] at mem
    obtain mem | mem := List.mem_append.1 mem
    · exact orderly.accepted m' mem
    · rw [List.mem_singleton.1 mem]
      exact ⟨(Party.verify_eq_ok_iff.1 admits.verified).1,
        admits.digests_accepted sender_built receiver_built defined⟩

theorem Held.admits_of_takes (ctx : UpdateContext) (held : n.Held ps ctx.settings) (sound : ps.Sound ctx.settings)
    (takes : n.Takes ps ctx m b) :
    ∃ x y, n.Joins x y ∧ n.Admits ctx x y m ∧ n.apply m b = n.apply m y := by
  have sides := held.sides sound
  cases takes with
  | inbound received =>
    obtain ⟨same, admits, -⟩ := sides.receive_eq_ok_iff.1 received
    exact ⟨n.second, n.first, .inr ⟨rfl, rfl⟩, admits, same⟩
  | outbound actor ask mem ready =>
    have isActor : n.first = actor := (parties_of_prepareFor sound.wellFormed held.owned_mem
      held.counter_mem held.isCounter mem ready).1
    subst isActor
    obtain ⟨admits, -, same⟩ := (prepareFor_prepares sides ask).of_ok (congrArg Prod.fst ready)
    simp only [Prepared.mk.injEq, true_and, and_true] at same
    subst same
    exact ⟨n.first, n.second, .inl ⟨rfl, rfl⟩, admits, rfl⟩

theorem lasts_orderly (sound : ps.Sound s) (defined : templates.Sound s) :
    Proxy.Lasts ps templates s fun n => n.Held ps s ∧ n.Orderly templates s where
  start id a b owned_mem isOwned counter_mem isCounter :=
    ⟨held_start owned_mem counter_mem isOwned isCounter, orderly_start id a b⟩
  notice n now holds := by
    obtain ⟨held, orderly⟩ := holds
    refine ⟨held.stays (.inr rfl), ?_⟩
    obtain ⟨status, changed⟩ := n.notice_eq_withStatus now
    rw [changed]
    exact orderly.withStatus status n.retired
  retire n holds := ⟨holds.1.retire, holds.2.withStatus n.status true⟩
  take n now m b holds takes := by
    obtain ⟨held, orderly⟩ := holds
    obtain ⟨x, y, joins, admits, same⟩ :=
      held.admits_of_takes ⟨templates, s, now⟩ sound takes
    rw [same]
    exact ⟨held.apply joins ((held.sides sound).names_ne joins) admits,
      orderly.apply held sound defined joins admits⟩

end Negotiation

namespace Proxy

theorem Reached.orderly {p : Proxy} {defined : List Template} (reached : p.Reached)
    (built : ∀ t ∈ defined, t.Built p.settings) (made : Templates.ofList defined = .ok p.templates) :
    ∀ n ∈ p.register.negotiations,
      n.Held p.parties p.settings ∧ n.Orderly p.templates p.settings := by
  have templates_sound := Templates.sound_ofList built made
  obtain ⟨parties, ps, templates, s, ids, calls, parties_built, parties_made⟩ := reached
  have sound := Parties.sound_ofList parties_built parties_made
  have basis : SameBasis (start ps templates s ids) ((start ps templates s ids).run calls) :=
    run_basis (sound_start sound) calls
  rw [basis.templates_eq, basis.settings_eq] at templates_sound
  have lasting := Negotiation.lasts_orderly sound templates_sound
  obtain ⟨-, holds⟩ := run_lasts (p := start ps templates s ids) sound.wellFormed lasting
    (Register.sound_empty _ _) calls
  rw [basis.parties_eq, basis.templates_eq, basis.settings_eq]
  exact holds.holds

/-- Whatever a proxy was asked and given, each of its negotiations is a conversation of an owned
party and a counter-party. -/
theorem conversations {p : Proxy} {defined : List Template} (reached : p.Reached)
    (built : ∀ t ∈ defined, t.Built p.settings) (made : Templates.ofList defined = .ok p.templates) :
    ∀ n ∈ p.register.negotiations, n.Conversation p.parties p.templates p.settings := by
  intro n mem
  obtain ⟨held, orderly⟩ := reached.orderly built made n mem
  exact held.conversation reached.sound.parties orderly

end Proxy

namespace Sample

open Negotiation

theorem run_defined (calls : List Call) :
    (∀ t ∈ [template], t.Built (proxy.run calls).settings) ∧
      Templates.ofList [template] = .ok (proxy.run calls).templates := by
  have basis : Proxy.SameBasis proxy (proxy.run calls) := Proxy.run_basis proxy_sound calls
  rw [basis.settings_eq, basis.templates_eq]
  refine ⟨fun t mem => ?_, templates_ofList⟩
  rw [List.mem_singleton.1 mem]
  exact template_built

theorem sale_converses : ∃ n ∈ (proxy.run (sale 7)).register.negotiations,
    n.messages.length = 2 ∧ n.Conversation (proxy.run (sale 7)).parties
      (proxy.run (sale 7)).templates (proxy.run (sale 7)).settings := by
  obtain ⟨x, commits⟩ := acceptance_commits 7
  have mem := Register.mem_of_registered? commits.differs.at_key
  rw [← run_sale] at mem
  obtain ⟨built, made⟩ := run_defined (sale 7)
  have two : ((pending 7).apply (.acceptance x) (pending 7).second).messages.length = 2 := rfl
  exact ⟨_, mem, two, Proxy.conversations (proxy_reached (sale 7)) built made _ mem⟩

end Sample

end Parley
