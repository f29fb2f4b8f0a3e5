import Parley.Proofs.Negotiation.Handles

namespace Parley

def NegotiationStatus.rank : NegotiationStatus → Nat
  | .initial => 0
  | .offering => 1
  | .accepted => 2
  | .rejected => 2
  | .expired => 2

namespace Negotiation

variable {n n' n'' : Negotiation} {b : Party} {m : Message}

theorem Agrees.refl : n.Agrees n :=
  ⟨rfl, rfl, rfl, rfl, rfl, rfl, rfl⟩

theorem Agrees.trans (first : n.Agrees n') (second : n'.Agrees n'') : n.Agrees n'' where
  id_eq := second.id_eq.trans first.id_eq
  offers_eq := second.offers_eq.trans first.offers_eq
  acceptance_eq := second.acceptance_eq.trans first.acceptance_eq
  rejection_eq := second.rejection_eq.trans first.rejection_eq
  status_eq := second.status_eq.trans first.status_eq
  active_eq := second.active_eq.trans first.active_eq
  retired_eq := second.retired_eq.trans first.retired_eq

theorem Blank.agrees (blank : n.Blank) (blank' : n'.Blank) (id_eq : n'.id = n.id)
    (status_eq : n'.status = n.status) (retired_eq : n'.retired = n.retired) : n.Agrees n' where
  id_eq := id_eq
  offers_eq := blank'.offers.trans blank.offers.symm
  acceptance_eq := blank'.acceptance.trans blank.acceptance.symm
  rejection_eq := blank'.rejection.trans blank.rejection.symm
  status_eq := status_eq
  active_eq := blank'.active.trans blank.active.symm
  retired_eq := retired_eq

def Before (n n' : Negotiation) : Prop :=
  n.offers.length < n'.offers.length ∨
    n.offers.length = n'.offers.length ∧ n.status.rank < n'.status.rank

theorem Before.trans (first : n.Before n') (second : n'.Before n'') : n.Before n'' := by
  unfold Before at first second ⊢
  omega

theorem Agrees.before (agrees : n.Agrees n') (before : n'.Before n'') : n.Before n'' := by
  unfold Before at before ⊢
  rwa [agrees.offers_eq, agrees.status_eq] at before

theorem Before.agrees (before : n.Before n') (agrees : n'.Agrees n'') : n.Before n'' := by
  unfold Before at before ⊢
  rwa [agrees.offers_eq, agrees.status_eq]

structure Onward (n n' : Negotiation) : Prop extends n.Follows n' where
  moved : n'.retired = false → n.Agrees n' ∨ n.Before n'

theorem Onward.refl : n.Onward n :=
  ⟨.refl, fun _ => .inl .refl⟩

theorem Onward.trans (first : n.Onward n') (second : n'.Onward n'') : n.Onward n'' where
  toFollows := first.toFollows.trans second.toFollows
  moved live := by
    have live' : n'.retired = false := by
      cases retired : n'.retired with
      | false => rfl
      | true => rw [← retired, ← second.gone retired, live]
    obtain agrees | before := first.moved live'
    · obtain agrees' | before' := second.moved live
      · exact .inl (agrees.trans agrees')
      · exact .inr (agrees.before before')
    · obtain agrees' | before' := second.moved live
      · exact .inr (before.agrees agrees')
      · exact .inr (before.trans before')

theorem before_apply (opens : Opens n.status m.kind) : n.Before (n.apply m b) := by
  cases m with
  | offer o => exact .inl (by simp [Negotiation.apply])
  | acceptance x =>
    obtain ⟨-, ⟨⟩⟩ | offering := opens
    exact .inr ⟨rfl, by simp [Negotiation.apply, offering, NegotiationStatus.rank]⟩
  | rejection x =>
    obtain ⟨-, ⟨⟩⟩ | offering := opens
    exact .inr ⟨rfl, by simp [Negotiation.apply, offering, NegotiationStatus.rank]⟩

theorem notice_onward (n : Negotiation) (now : Instant) : n.Onward (n.notice now) where
  toFollows := n.follows_notice now
  moved _ := by
    unfold notice
    split
    next lapsed =>
      obtain ⟨-, offering, -⟩ := hasLapsed_iff.1 lapsed
      exact .inr (.inr ⟨rfl, by simp [offering, NegotiationStatus.rank]⟩)
    · exact .inl .refl

theorem after_onward {deed : Deed} (in_place : ∀ d, deed = .commit d →
    Opens d.prepared.status d.prepared.message.kind) : n.Onward (n.after deed) := by
  obtain same | ⟨now, noticed⟩ | ⟨m, b, live, added, opens⟩ := n.after_cases deed
  · rw [same]
    exact .refl
  · rw [noticed]
    exact n.notice_onward now
  · rw [added]
    refine ⟨follows_apply live, fun _ => .inr (before_apply ?_)⟩
    obtain opens | ⟨d, rfl, status_eq, rfl⟩ := opens
    · exact opens
    · rw [← status_eq]
      exact in_place d rfl

theorem retire_onward (live : n.retired = false) (initial : n.status = .initial) :
    n.Onward { n with retired := true } where
  key_eq := rfl
  gone retired := absurd (live.symm.trans retired) (by simp)
  opened opened := absurd initial opened
  grown := List.prefix_rfl
  moved := nofun

end Negotiation

/-- A prepared message, the handle it was prepared at, and the negotiation as it stood there. -/
structure Issue where
  handle : Handle
  state : Negotiation
  prepared : Prepared

/-- A register, everything that was prepared at its handles, and everything that was delivered. -/
structure Desk where
  register : Register
  issued : List Issue
  delivered : List Delivered

namespace Desk

variable {t : Desk} {h : Handle} {n n' : Negotiation} {m : Message} {d : Delivered}

/-- A desk as it comes about: what is prepared may be delivered at any time, or never, and what was
delivered may be committed at any handle, at any time. -/
inductive Reached : Desk → Prop
  | empty (attempts : Nat) (source : Nat → NegotiationId) : Reached ⟨.empty attempts source, [], []⟩
  | access (t : Desk) (access : Register.Access) (reached : Reached t)
    (delivered : ∀ h d, access = .update h (.commit d) → d ∈ t.delivered) :
    Reached { t with register := t.register.access access }
  | prepare (t : Desk) (h : Handle) (n n' : Negotiation) (ctx : UpdateContext) (actor : Party)
    (ask : Negotiation.Ask) (prepared : Prepared) (reached : Reached t)
    (place : t.register.get? h = some n)
    (ready : n.prepareFor ctx actor ask = (.ok prepared, n')) :
    Reached { t with register := t.register.put h n', issued := ⟨h, n', prepared⟩ :: t.issued }
  | deliver (t : Desk) (issue : Issue) (send : Message → Party → Except RelayError Unit)
    (d : Delivered) (reached : Reached t) (mem : issue ∈ t.issued)
    (sent : issue.prepared.deliver send = .ok d) : Reached { t with delivered := d :: t.delivered }

/-- What is known of a prepared message, however long it is held. -/
structure Tracks (r : Register) (issue : Issue) : Prop where
  id_eq : issue.prepared.id = issue.state.id
  offers_eq : issue.prepared.offersLogged = issue.state.offers.length
  status_eq : issue.prepared.status = issue.state.status
  live : issue.state.retired = false
  opens : Negotiation.Opens issue.state.status issue.prepared.message.kind
  blank : issue.state.status = .initial → issue.state.Blank
  onward : ∃ n, r.get? issue.handle = some n ∧ issue.state.Onward n

theorem Tracks.carries {r r' : Register} {issue : Issue} (tracks : Tracks r issue)
    (carries : Register.Carries Negotiation.Onward r r') : Tracks r' issue := by
  obtain ⟨n, place, onward⟩ := tracks.onward
  obtain ⟨n', place', onward'⟩ := carries _ _ place
  exact ⟨tracks.id_eq, tracks.offers_eq, tracks.status_eq, tracks.live, tracks.opens, tracks.blank,
    n', place', onward.trans onward'⟩

structure Sound (t : Desk) : Prop where
  tidy : t.register.Tidy
  tracks : ∀ issue ∈ t.issued, Tracks t.register issue
  origin : ∀ d ∈ t.delivered, ∃ issue ∈ t.issued, issue.prepared = d.prepared

theorem Sound.carries_access (sound : t.Sound) (access : Register.Access)
    (delivered : ∀ h d, access = .update h (.commit d) → d ∈ t.delivered) :
    Register.Carries Negotiation.Onward t.register (t.register.access access) := by
  refine sound.tidy.carries_access (fun _ => .refl) (fun _ => Negotiation.retire_onward) access ?_
  rintro h deed rfl n
  refine Negotiation.after_onward ?_
  rintro d rfl
  obtain ⟨issue, mem, same⟩ := sound.origin d (delivered h d rfl)
  have tracks := sound.tracks issue mem
  rw [← same, tracks.status_eq]
  exact tracks.opens

theorem tracks_prepare {r : Register} {ctx : UpdateContext} {actor : Party} {ask : Negotiation.Ask}
    {prepared : Prepared} (tidy : r.Tidy) (place : r.get? h = some n)
    (ready : n.prepareFor ctx actor ask = (.ok prepared, n')) :
    (r.put h n') = r.update h (.prepare ctx actor ask) ∧ Tracks (r.put h n') ⟨h, n', prepared⟩ := by
  obtain ⟨rfl, prepared_eq, turn⟩ := Negotiation.prepareFor_eq_ok ready
  have changed : n'.after (.prepare ctx actor ask) = n' := congrArg Prod.snd ready
  refine ⟨by simp only [Register.update, place, changed], ?_, ?_, ?_, ?_, ?_, ?_, ?_⟩
  · exact congrArg Prepared.id prepared_eq
  · exact congrArg Prepared.offersLogged prepared_eq
  · exact congrArg Prepared.status prepared_eq
  · exact (Negotiation.checkTurn_eq_ok_iff.1 turn).1
  · exact Negotiation.opens_of_checkTurn turn
  · exact tidy.blank n' (List.mem_of_getElem? place)
  · refine ⟨n', ?_, .refl⟩
    rw [Register.get?_put place, if_pos rfl]

theorem Reached.sound (reached : t.Reached) : t.Sound := by
  induction reached with
  | empty attempts source =>
    exact ⟨Register.tidy_empty attempts source, by simp, by simp⟩
  | access t access reached delivered sound =>
    have carries := sound.carries_access access delivered
    exact ⟨sound.tidy.access access, fun issue mem => (sound.tracks issue mem).carries carries,
      sound.origin⟩
  | prepare t h n n' ctx actor ask prepared reached place ready sound =>
    obtain ⟨changed, tracks⟩ := tracks_prepare sound.tidy place ready
    have carries := sound.carries_access (.update h (.prepare ctx actor ask)) (by simp)
    have tidy := sound.tidy.access (.update h (.prepare ctx actor ask))
    rw [Register.access, ← changed] at carries tidy
    refine ⟨tidy, ?_, fun d mem => ?_⟩
    · exact List.forall_mem_cons.2
        ⟨tracks, fun issue mem => (sound.tracks issue mem).carries carries⟩
    · obtain ⟨issue, mem, same⟩ := sound.origin d mem
      exact ⟨issue, List.mem_cons_of_mem _ mem, same⟩
  | deliver t issue send d reached mem sent sound =>
    refine ⟨sound.tidy, sound.tracks, ?_⟩
    unfold Prepared.deliver at sent
    split at sent
    · cases sent
      exact List.forall_mem_cons.2 ⟨⟨issue, mem, rfl⟩, sound.origin⟩
    · cases sent

theorem Tracks.agrees {r : Register} {issue : Issue} (tidy : r.Tidy) (tracks : Tracks r issue)
    (place : r.get? h = some n) (fits : n.fits issue.prepared = true)
    (pair_eq : issue.state.pair = n.pair) : issue.state.Agrees n := by
  obtain ⟨live, id_eq, offers_eq, status_eq⟩ := Negotiation.fits_iff.1 fits
  rw [tracks.id_eq] at id_eq
  rw [tracks.offers_eq] at offers_eq
  rw [tracks.status_eq] at status_eq
  obtain ⟨n₀, place₀, onward⟩ := tracks.onward
  by_cases here : issue.handle = h
  · -- the number of offers and the status never come back at one handle
    obtain rfl := Option.some.inj (place₀.symm.trans (here ▸ place))
    obtain agrees | fewer | ⟨-, earlier⟩ := onward.moved live
    · exact agrees
    · exact absurd offers_eq fewer.ne
    · exact absurd (congrArg NegotiationStatus.rank status_eq) earlier.ne
  · -- at another handle of the pair nothing was ever committed
    have key_eq : n₀.key = n.key := onward.key_eq.trans (Prod.ext pair_eq id_eq)
    have retired : n₀.retired = true := by
      cases retired : n₀.retired with
      | true => rfl
      | false =>
        have listed := (tidy.lookup_iff n.key issue.handle).2 ⟨n₀, place₀, key_eq, retired⟩
        have listed' := (tidy.lookup_iff n.key h).2 ⟨n, place, rfl, live⟩
        exact absurd (Option.some.inj (listed.symm.trans listed')) here
    have initial : issue.state.status = .initial := by
      by_contra opened
      exact (onward.opened opened).1 (tidy.gone n₀ (List.mem_of_getElem? place₀) retired)
    exact (tracks.blank initial).agrees (tidy.blank n (List.mem_of_getElem? place)
      (status_eq.symm.trans initial)) id_eq.symm status_eq.symm (live.trans tracks.live.symm)

/-- A delivered message commits only where its id, the number of offers and the status are those of
where it was prepared, and within one pair of parties only to the very state it was prepared in. -/
theorem commit_in_place (reached : t.Reached) (mem : d ∈ t.delivered)
    (place : t.register.get? h = some n) (committed : n.commit d = (.ok m, n')) :
    (∃ issue ∈ t.issued, issue.prepared = d.prepared) ∧
      ∀ issue ∈ t.issued, issue.prepared = d.prepared →
        issue.state.id = n.id ∧ issue.state.offers.length = n.offers.length ∧
          issue.state.status = n.status ∧ (issue.state.pair = n.pair → issue.state.Agrees n) := by
  have sound := reached.sound
  refine ⟨sound.origin d mem, fun issue issued same => ?_⟩
  have tracks := sound.tracks issue issued
  obtain ⟨fits, -, -⟩ := Negotiation.commit_eq_ok_iff.1 committed
  rw [← same] at fits
  obtain ⟨-, id_eq, offers_eq, status_eq⟩ := Negotiation.fits_iff.1 fits
  exact ⟨tracks.id_eq.symm.trans id_eq, tracks.offers_eq.symm.trans offers_eq,
    tracks.status_eq.symm.trans status_eq, tracks.agrees sound.tidy place fits⟩

end Desk

namespace Sample

open Negotiation

def carrier : Party := counter "Carrier" (List.replicate 32 3)

def shipping (id : NegotiationId) : Negotiation :=
  .start id (owned "Seller" sellerSeed) carrier

theorem shipping_pair_ne (id : NegotiationId) : (shipping id).pair ≠ (selling id).pair := by
  have seller : (owned "Seller" sellerSeed).name = "Seller" := by
    change Text.trim "Seller" = "Seller"
    decide
  have buyer : (counter "Buyer" buyerSeed).name = "Buyer" := by
    change Text.trim "Buyer" = "Buyer"
    decide
  have carrier : carrier.name = "Carrier" := by
    change Text.trim "Carrier" = "Carrier"
    decide
  change PartyPair.of (owned "Seller" sellerSeed).name Sample.carrier.name ≠
    PartyPair.of (owned "Seller" sellerSeed).name (counter "Buyer" buyerSeed).name
  rw [seller, buyer, carrier, Ne, PartyPair.of_eq_of_iff]
  decide

def bothPairs (id : NegotiationId) : Register :=
  ((Register.empty 1 fun _ => id).insert id (owned "Seller" sellerSeed)
    (counter "Buyer" buyerSeed)).2.insert id (owned "Seller" sellerSeed) carrier |>.2

theorem bothPairs_reached (id : NegotiationId) : Desk.Reached ⟨bothPairs id, [], []⟩ := by
  have missing (key : RegisterKey) : (Register.empty 1 fun _ => id).find? key = none :=
    Register.find?_eq_none (Register.registered?_empty 1 _)
  have opened : (Register.empty 1 fun _ => id).getOrCreate (owned "Seller" sellerSeed)
      (counter "Buyer" buyerSeed) id = (Register.empty 1 fun _ => id).insert id
        (owned "Seller" sellerSeed) (counter "Buyer" buyerSeed) :=
    Register.getOrCreate_of_missing (missing _)
  have key_ne : (shipping id).key ≠ (selling id).key := fun same =>
    shipping_pair_ne id (congrArg Prod.fst same)
  have sound : (Register.empty 1 fun _ => id).Sound fun _ => True := Register.sound_empty 1 _
  have opened' : ((Register.empty 1 fun _ => id).insert id (owned "Seller" sellerSeed)
      (counter "Buyer" buyerSeed)).2.getOrCreate (owned "Seller" sellerSeed) carrier id =
        ((Register.empty 1 fun _ => id).insert id (owned "Seller" sellerSeed)
          (counter "Buyer" buyerSeed)).2.insert id (owned "Seller" sellerSeed) carrier :=
    Register.getOrCreate_of_missing
      ((Register.find?_insert_of_ne sound key_ne).trans (missing _))
  have reached := Desk.Reached.access _ (.getOrCreate (owned "Seller" sellerSeed) carrier id)
    (.access _ (.getOrCreate (owned "Seller" sellerSeed) (counter "Buyer" buyerSeed) id)
      (.empty 1 fun _ => id) (by simp)) (by simp)
  simp only [Register.access, opened, opened'] at reached
  exact reached

theorem bothPairs_get? (id : NegotiationId) : (bothPairs id).get? 0 = some (selling id) ∧
    (bothPairs id).get? 1 = some (shipping id) :=
  ⟨rfl, rfl⟩

def offerDelivered (id : NegotiationId) : Desk :=
  ⟨(bothPairs id).put 0 (selling id), [⟨0, selling id, offer id⟩], [⟨offer id⟩]⟩

theorem offerDelivered_reached (id : NegotiationId) : (offerDelivered id).Reached := by
  rcases ready : (selling id).prepareFor ⟨templates, settings, now⟩ (owned "Seller" sellerSeed)
    (.offer now yearEnd [contract]) with ⟨result, n'⟩
  have made := prepare_offer id
  rw [ready] at made
  obtain rfl : result = .ok (offer id) := made
  obtain rfl := (prepareFor_eq_ok ready).1
  have sent : (offer id).deliver (fun _ _ => .ok ()) = .ok ⟨offer id⟩ := rfl
  exact .deliver _ ⟨0, selling id, offer id⟩ _ _
    (.prepare _ 0 _ _ _ _ _ _ (bothPairs_reached id) (bothPairs_get? id).1 ready)
    List.mem_cons_self sent

theorem offerDelivered_get? (id : NegotiationId) :
    (offerDelivered id).register.get? 0 = some (selling id) ∧
      (offerDelivered id).register.get? 1 = some (shipping id) := by
  have place := (bothPairs_get? id).1
  constructor
  · exact (Register.get?_put place 0).trans (if_pos rfl)
  · exact (Register.get?_put place 1).trans (bothPairs_get? id).2

theorem offer_commits_in_place : ∃ m n', (selling 7).commit ⟨offer 7⟩ = (.ok m, n') ∧
    (∃ issue ∈ (offerDelivered 7).issued, issue.prepared = offer 7) ∧
      ∀ issue ∈ (offerDelivered 7).issued, issue.prepared = offer 7 →
        issue.state.id = 7 ∧ issue.state.offers.length = (selling 7).offers.length ∧
          issue.state.status = (selling 7).status ∧
          (issue.state.pair = (selling 7).pair → issue.state.Agrees (selling 7)) := by
  have committed : (selling 7).commit ⟨offer 7⟩ = (.ok (offer 7).message, _) :=
    commit_eq_ok_iff.2 ⟨fits_iff.2 ⟨rfl, rfl, rfl, rfl⟩, rfl, rfl⟩
  exact ⟨_, _, committed, Desk.commit_in_place (offerDelivered_reached 7) List.mem_cons_self
    (offerDelivered_get? 7).1 committed⟩

theorem offer_commits_elsewhere : ∃ t : Desk, t.Reached ∧ ∃ d ∈ t.delivered, ∃ h n m n',
    t.register.get? h = some n ∧ n.commit d = (.ok m, n') ∧
      ∀ issue ∈ t.issued, issue.prepared = d.prepared → issue.state.pair ≠ n.pair := by
  have committed : (shipping 7).commit ⟨offer 7⟩ = (.ok (offer 7).message, _) :=
    commit_eq_ok_iff.2 ⟨fits_iff.2 ⟨rfl, rfl, rfl, rfl⟩, rfl, rfl⟩
  refine ⟨offerDelivered 7, offerDelivered_reached 7, ⟨offer 7⟩, List.mem_cons_self, 1, _, _, _,
    (offerDelivered_get? 7).2, committed, ?_⟩
  intro issue mem _
  rw [List.mem_singleton.1 mem]
  exact (shipping_pair_ne 7).symm

end Sample

end Parley
