import Mathlib.Logic.Relation
import Parley.Proofs.Negotiation.Onward

/-!
# A log that only goes on

The status of a negotiation, its offers, the message that closed it and the party whose turn it is
are written at different places: when a message is committed, when the last offer is seen to have
run out, when the negotiation is retired. They tell the same story nevertheless, and the story only
goes on: offers are added at the end, the closing message stays, and a negotiation that came to an
end changes no more.
-/

namespace Parley

inductive NegotiationStatus.Turns : NegotiationStatus → NegotiationStatus → Prop
  | opened : Turns .initial .offering
  | countered : Turns .offering .offering
  | accepted : Turns .offering .accepted
  | rejected : Turns .offering .rejected
  | expired : Turns .offering .expired

namespace Negotiation

variable {n n' n'' : Negotiation} {m : Message} {b : Party} {deed : Deed} {p : Prepared}
variable {ctx : UpdateContext}

structure Coherent (n : Negotiation) : Prop where
  initial_iff : n.status = .initial ↔ n.offers = []
  active_iff : n.active = none ↔ n.offers = []
  accepted_iff : n.status = .accepted ↔ n.acceptance.isSome = true
  rejected_iff : n.status = .rejected ↔ n.rejection.isSome = true
  single : n.acceptance = none ∨ n.rejection = none
  retired : n.retired = true → n.status = .initial

structure Extends (n n' : Negotiation) : Prop where
  offers : n.offers <+: n'.offers
  acceptance : ∀ x, n.acceptance = some x → n'.acceptance = some x
  rejection : ∀ x, n.rejection = some x → n'.rejection = some x
  ended : n.status.isTerminal = true → n' = n

structure Advances (n n' : Negotiation) : Prop extends n.Extends n' where
  status : n'.status = n.status ∨ n.status.Turns n'.status

theorem Extends.refl : n.Extends n :=
  ⟨List.prefix_rfl, fun _ same => same, fun _ same => same, fun _ => rfl⟩

theorem Extends.trans (first : n.Extends n') (second : n'.Extends n'') : n.Extends n'' where
  offers := first.offers.trans second.offers
  acceptance x accepted := second.acceptance x (first.acceptance x accepted)
  rejection x rejected := second.rejection x (first.rejection x rejected)
  ended terminal := by
    obtain rfl := first.ended terminal
    exact second.ended terminal

theorem Advances.refl : n.Advances n :=
  ⟨.refl, .inl rfl⟩

theorem coherent_start (id : NegotiationId) (a b : Party) : (start id a b).Coherent where
  initial_iff := by simp [start]
  active_iff := by simp [start]
  accepted_iff := by simp [start]
  rejected_iff := by simp [start]
  single := .inl rfl
  retired := nofun

theorem Coherent.acceptance_eq_none (coherent : n.Coherent) (running : n.status ≠ .accepted) :
    n.acceptance = none := by
  cases acceptance : n.acceptance with
  | none => rfl
  | some x => exact absurd (coherent.accepted_iff.2 (by simp [acceptance])) running

theorem Coherent.rejection_eq_none (coherent : n.Coherent) (running : n.status ≠ .rejected) :
    n.rejection = none := by
  cases rejection : n.rejection with
  | none => rfl
  | some x => exact absurd (coherent.rejected_iff.2 (by simp [rejection])) running

theorem Opens.running {status : NegotiationStatus} {kind : MessageKind} (opens : Opens status kind) :
    status = .initial ∨ status = .offering :=
  opens.imp_left And.left

theorem Coherent.apply (coherent : n.Coherent) (live : n.retired = false)
    (opens : Opens n.status m.kind) : (n.apply m b).Coherent := by
  -- whatever is let in, the negotiation was not closed before
  have unclosed : n.status ≠ .accepted ∧ n.status ≠ .rejected := by
    obtain status | status := opens.running <;> simp [status]
  have no_acceptance := coherent.acceptance_eq_none unclosed.1
  have no_rejection := coherent.rejection_eq_none unclosed.2
  cases m with
  | offer o =>
    constructor <;> simp [Negotiation.apply, no_acceptance, no_rejection, live]
  | acceptance x =>
    obtain ⟨-, ⟨⟩⟩ | offering := opens
    have offered : n.offers ≠ [] := fun empty => by
      simp [coherent.initial_iff.2 empty] at offering
    constructor <;> simp [Negotiation.apply, no_rejection, live, offered]
  | rejection x =>
    obtain ⟨-, ⟨⟩⟩ | offering := opens
    have offered : n.offers ≠ [] := fun empty => by
      simp [coherent.initial_iff.2 empty] at offering
    constructor <;> simp [Negotiation.apply, no_acceptance, live, offered]

theorem Coherent.advances_apply (coherent : n.Coherent) (opens : Opens n.status m.kind) :
    n.Advances (n.apply m b) := by
  have unclosed : n.status ≠ .accepted ∧ n.status ≠ .rejected := by
    obtain status | status := opens.running <;> simp [status]
  have running : n.status.isTerminal ≠ true := by
    obtain status | status := opens.running <;> simp [status, NegotiationStatus.isTerminal]
  refine ⟨⟨offers_prefix_apply, ?_, ?_, fun ended => absurd ended running⟩, .inr ?_⟩
  · simp [coherent.acceptance_eq_none unclosed.1]
  · simp [coherent.rejection_eq_none unclosed.2]
  · cases m with
    | offer o =>
      obtain status | status := opens.running
      · exact status ▸ .opened
      · exact status ▸ .countered
    | acceptance x =>
      obtain ⟨-, ⟨⟩⟩ | offering := opens
      exact offering ▸ .accepted
    | rejection x =>
      obtain ⟨-, ⟨⟩⟩ | offering := opens
      exact offering ▸ .rejected

theorem Coherent.notice (coherent : n.Coherent) (now : Instant) :
    (n.notice now).Coherent ∧ n.Advances (n.notice now) := by
  unfold Negotiation.notice
  split
  next lapsed =>
    obtain ⟨live, offering, -⟩ := hasLapsed_iff.1 lapsed
    have offered : n.offers ≠ [] := fun empty => by
      simp [coherent.initial_iff.2 empty] at offering
    have no_acceptance := coherent.acceptance_eq_none (by simp [offering])
    have no_rejection := coherent.rejection_eq_none (by simp [offering])
    refine ⟨?_, ⟨⟨List.prefix_rfl, fun _ same => same, fun _ same => same, fun ended => ?_⟩, .inr ?_⟩⟩
    · constructor <;> simp [offered, no_acceptance, no_rejection, live, coherent.active_iff]
    · simp [offering, NegotiationStatus.isTerminal] at ended
    · exact offering ▸ .expired
  · exact ⟨coherent, .refl⟩

theorem Coherent.after (coherent : n.Coherent)
    (in_place : ∀ d, deed = .commit d → Opens d.prepared.status d.prepared.message.kind) :
    (n.after deed).Coherent ∧ n.Advances (n.after deed) := by
  obtain same | ⟨now, noticed⟩ | ⟨m, b, live, added, opens⟩ := n.after_cases deed
  · rw [same]
    exact ⟨coherent, .refl⟩
  · rw [noticed]
    exact coherent.notice now
  · rw [added]
    have opens : Opens n.status m.kind := by
      obtain opens | ⟨d, rfl, status_eq, rfl⟩ := opens
      · exact opens
      · exact status_eq ▸ in_place d rfl
    exact ⟨coherent.apply live opens, coherent.advances_apply opens⟩

theorem Coherent.retire (coherent : n.Coherent) (pristine : n.isPristine = true) :
    { n with retired := true }.Coherent ∧ n.Advances { n with retired := true } := by
  have initial : n.status = .initial := by
    simp only [isPristine, Bool.and_eq_true, beq_iff_eq] at pristine
    exact pristine.1.2
  refine ⟨⟨coherent.initial_iff, coherent.active_iff, coherent.accepted_iff, coherent.rejected_iff,
    coherent.single, fun _ => initial⟩, ⟨⟨List.prefix_rfl, fun _ same => same, fun _ same => same, ?_⟩, .inl rfl⟩⟩
  simp [initial, NegotiationStatus.isTerminal]

def issues (n : Negotiation) : Deed → List Prepared
  | .prepare ctx actor ask => (n.prepareFor ctx actor ask).1.toOption.toList
  | _ => []

theorem opens_of_issues (mem : p ∈ n.issues deed) : Opens p.status p.message.kind := by
  cases deed with
  | prepare ctx actor ask =>
    rcases ready : n.prepareFor ctx actor ask with ⟨result, n'⟩
    rw [issues, ready] at mem
    cases result with
    | error e => simp [Except.toOption] at mem
    | ok prepared =>
      obtain rfl : p = prepared := by simpa [Except.toOption] using mem
      obtain ⟨rfl, prepared_eq, turn⟩ := prepareFor_eq_ok ready
      have status_eq : p.status = n'.status := congrArg Prepared.status prepared_eq
      rw [status_eq]
      exact opens_of_checkTurn turn
  | commit d => cases mem
  | receive ctx m => cases mem

end Negotiation

/-- Negotiations at their places, and everything that was ever prepared or delivered in them. -/
structure Docket where
  negotiations : List Negotiation
  prepared : List Prepared
  delivered : List Delivered

namespace Docket

variable {t t' : Docket} {h : Nat} {n n' : Negotiation}

def empty : Docket := ⟨[], [], []⟩

def get? (t : Docket) (h : Nat) : Option Negotiation := t.negotiations[h]?

/-- What may happen next. Any two parties may start to negotiate under any id, also under one that
they or others already use. What was prepared may be delivered at any time, or never, and what was
delivered may be committed in any negotiation, at any time. -/
inductive Step : Docket → Docket → Prop
  | start (t : Docket) (id : NegotiationId) (a b : Party) :
    Step t { t with negotiations := t.negotiations ++ [.start id a b] }
  | act (t : Docket) (h : Nat) (n : Negotiation) (deed : Negotiation.Deed) (place : t.get? h = some n)
    (handed : ∀ d, deed = .commit d → d ∈ t.delivered) :
    Step t { t with
      negotiations := t.negotiations.set h (n.after deed)
      prepared := n.issues deed ++ t.prepared }
  | deliver (t : Docket) (p : Prepared) (send : Message → Party → Except RelayError Unit)
    (d : Delivered) (mem : p ∈ t.prepared) (sent : p.deliver send = .ok d) :
    Step t { t with delivered := d :: t.delivered }
  | retire (t : Docket) (h : Nat) (n : Negotiation) (place : t.get? h = some n)
    (pristine : n.isPristine = true) :
    Step t { t with negotiations := t.negotiations.set h { n with retired := true } }

theorem Step.prepared {ctx : UpdateContext} {actor : Party} {ask : Negotiation.Ask} {p : Prepared}
    (place : t.get? h = some n) (ready : n.prepareFor ctx actor ask = (.ok p, n')) :
    Step t { t with negotiations := t.negotiations.set h n', prepared := p :: t.prepared } := by
  have step := Step.act t h n (.prepare ctx actor ask) place (by simp)
  simp only [Negotiation.after, Negotiation.issues, ready] at step
  exact step

theorem Step.committed {d : Delivered} {m : Message} (place : t.get? h = some n)
    (mem : d ∈ t.delivered) (committed : n.commit d = (.ok m, n')) :
    Step t { t with negotiations := t.negotiations.set h n' } := by
  have step := Step.act t h n (.commit d) place fun d' same => by
    cases same
    exact mem
  simp only [Negotiation.after, committed] at step
  exact step

abbrev Leads : Docket → Docket → Prop := Relation.ReflTransGen Step

structure Sound (t : Docket) : Prop where
  coherent : ∀ n ∈ t.negotiations, n.Coherent
  prepared : ∀ p ∈ t.prepared, Negotiation.Opens p.status p.message.kind
  delivered : ∀ d ∈ t.delivered, Negotiation.Opens d.prepared.status d.prepared.message.kind

theorem sound_empty : empty.Sound :=
  ⟨by simp [empty], by simp [empty], by simp [empty]⟩

def Carries (R : Negotiation → Negotiation → Prop) (t t' : Docket) : Prop :=
  ∀ h n, t.get? h = some n → ∃ n', t'.get? h = some n' ∧ R n n'

theorem carries_set {prepared : List Prepared} {delivered : List Delivered}
    (place : t.get? h = some n) (advances : n.Advances n') :
    Carries Negotiation.Advances t ⟨t.negotiations.set h n', prepared, delivered⟩ := by
  intro k m found
  have inside := (List.getElem?_eq_some_iff.1 place).1
  by_cases here : h = k
  · subst here
    obtain rfl := Option.some.inj (place.symm.trans found)
    exact ⟨n', List.getElem?_set_self inside, advances⟩
  · exact ⟨m, (List.getElem?_set_ne here).trans found, .refl⟩

theorem Sound.coherent_set (sound : t.Sound) (coherent : n'.Coherent) :
    ∀ n ∈ t.negotiations.set h n', n.Coherent := by
  intro n mem
  obtain mem | rfl := List.mem_or_eq_of_mem_set mem
  · exact sound.coherent n mem
  · exact coherent

theorem Sound.step (sound : t.Sound) (step : Step t t') :
    t'.Sound ∧ Carries Negotiation.Advances t t' := by
  cases step with
  | start id a b =>
    refine ⟨⟨fun n mem => ?_, sound.prepared, sound.delivered⟩, fun h n place => ?_⟩
    · obtain mem | mem := List.mem_append.1 mem
      · exact sound.coherent n mem
      · exact List.mem_singleton.1 mem ▸ Negotiation.coherent_start id a b
    · have inside := (List.getElem?_eq_some_iff.1 place).1
      exact ⟨n, (List.getElem?_append_left inside).trans place, .refl⟩
  | act h n deed place handed =>
    have before := sound.coherent n (List.mem_of_getElem? place)
    obtain ⟨coherent, advances⟩ := before.after fun d same => sound.delivered d (handed d same)
    refine ⟨⟨sound.coherent_set coherent, fun p mem => ?_, sound.delivered⟩,
      carries_set place advances⟩
    obtain mem | mem := List.mem_append.1 mem
    · exact Negotiation.opens_of_issues mem
    · exact sound.prepared p mem
  | deliver p send d mem sent =>
    refine ⟨⟨sound.coherent, sound.prepared, ?_⟩, fun h n place => ⟨n, place, .refl⟩⟩
    unfold Prepared.deliver at sent
    split at sent
    · cases sent
      exact List.forall_mem_cons.2 ⟨sound.prepared p mem, sound.delivered⟩
    · cases sent
  | retire h n place pristine =>
    obtain ⟨coherent, advances⟩ := (sound.coherent n (List.mem_of_getElem? place)).retire pristine
    exact ⟨⟨sound.coherent_set coherent, sound.prepared, sound.delivered⟩,
      carries_set place advances⟩

theorem Sound.leads (sound : t.Sound) (leads : Leads t t') :
    t'.Sound ∧ Carries Negotiation.Extends t t' := by
  induction leads with
  | refl => exact ⟨sound, fun h n place => ⟨n, place, .refl⟩⟩
  | tail _ step ih =>
    obtain ⟨sound, carries⟩ := ih
    obtain ⟨sound', carries'⟩ := sound.step step
    refine ⟨sound', fun h n place => ?_⟩
    obtain ⟨n', place', extended⟩ := carries h n place
    obtain ⟨n'', place'', advances⟩ := carries' h n' place'
    exact ⟨n'', place'', extended.trans advances.toExtends⟩

/-- Whatever is done with any negotiations, their logs are coherent; each step takes them on as the
status allows, and nothing that was logged is ever lost. -/
theorem leads_coherent (leads : Leads empty t) :
    (∀ n ∈ t.negotiations, n.Coherent) ∧
      (∀ t', Step t t' → Carries Negotiation.Advances t t') ∧
      ∀ t', Leads t t' → Carries Negotiation.Extends t t' := by
  obtain ⟨sound, -⟩ := sound_empty.leads leads
  exact ⟨sound.coherent, fun t' step => (sound.step step).2, fun t' later => (sound.leads later).2⟩

end Docket

namespace Sample

open Negotiation

def opened (id : NegotiationId) : Docket :=
  ⟨[selling id], [], []⟩

def handed (id : NegotiationId) : Docket :=
  ⟨[selling id], [offer id], [⟨offer id⟩]⟩

def committed (id : NegotiationId) : Docket :=
  ⟨[(selling id).apply (offer id).message (offer id).receiver], [offer id], [⟨offer id⟩]⟩

theorem handed_leads (id : NegotiationId) : Docket.Leads .empty (handed id) := by
  rcases ready : (selling id).prepareFor ⟨templates, settings, now⟩ (owned "Seller" sellerSeed)
    (.offer now yearEnd [contract]) with ⟨result, n'⟩
  have made := prepare_offer id
  rw [ready] at made
  obtain rfl : result = .ok (offer id) := made
  obtain rfl := (prepareFor_eq_ok ready).1
  have started : Docket.Step .empty (opened id) := .start _ id _ _
  have prepared : Docket.Step (opened id) ⟨[selling id], [offer id], []⟩ :=
    .prepared (h := 0) rfl ready
  have delivered : Docket.Step ⟨[selling id], [offer id], []⟩ (handed id) :=
    .deliver _ (offer id) (fun _ _ => .ok ()) ⟨offer id⟩ List.mem_cons_self rfl
  exact ((Relation.ReflTransGen.single started).tail prepared).tail delivered

theorem committed_leads (id : NegotiationId) : Docket.Leads .empty (committed id) := by
  have fits : (selling id).commit ⟨offer id⟩ = (.ok (offer id).message, _) :=
    commit_eq_ok_iff.2 ⟨fits_iff.2 ⟨rfl, rfl, rfl, rfl⟩, rfl, rfl⟩
  have step : Docket.Step (handed id) (committed id) :=
    .committed (h := 0) rfl List.mem_cons_self fits
  exact (handed_leads id).tail step

theorem committed_coherent : Docket.Leads .empty (committed 7) ∧
    (∀ n ∈ (committed 7).negotiations, n.Coherent) ∧
      (∀ t', Docket.Step (committed 7) t' → Docket.Carries Negotiation.Advances (committed 7) t') ∧
      ∀ t', Docket.Leads (committed 7) t' → Docket.Carries Negotiation.Extends (committed 7) t' :=
  ⟨committed_leads 7, Docket.leads_coherent (committed_leads 7)⟩

end Sample

end Parley
