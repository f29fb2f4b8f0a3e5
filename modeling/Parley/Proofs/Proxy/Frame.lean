import Parley.Proofs.Negotiation.Handles
import Parley.Proofs.Proxy.Archive

namespace Parley

namespace Register

variable {r r' r'' : Register} {key : RegisterKey} {h : Handle} {n n' : Negotiation}

/-- That two registers agree, but for what stands under one key and for the negotiation at one
handle. -/
structure Elsewhere (key : RegisterKey) (h : Handle) (r r' : Register) : Prop where
  listed : ∀ k, k ≠ key → r'.listed.lookup k = r.listed.lookup k
  kept : ∀ h' n, h' ≠ h → r.get? h' = some n → r'.get? h' = some n

theorem Elsewhere.refl : Elsewhere key h r r :=
  ⟨fun _ _ => rfl, fun _ _ _ place => place⟩

theorem Elsewhere.trans (first : Elsewhere key h r r') (second : Elsewhere key h r' r'') :
    Elsewhere key h r r'' where
  listed k ne := (second.listed k ne).trans (first.listed k ne)
  kept h' n ne place := second.kept h' n ne (first.kept h' n ne place)

theorem elsewhere_put (n : Negotiation) : Elsewhere key h r (r.put h n) where
  listed _ _ := rfl
  kept h' n' ne place := by
    unfold get? put
    rw [List.getElem?_set_ne (Ne.symm ne)]
    exact place

theorem elsewhere_insert (r : Register) (id : NegotiationId) (a b : Party) :
    Elsewhere (Negotiation.start id a b).key r.negotiations.length r (r.insert id a b).2 where
  listed k ne := by
    have other : (k == ((Negotiation.start id a b).pair, id)) = false := beq_eq_false_iff_ne.2 ne
    simp only [insert, List.lookup_cons, other]
  kept _ _ _ place := get?_insert_of_some place

theorem elsewhere_removeIfPristine (place : r.get? h = some n) (busy : Bool) :
    Elsewhere n.key h r (r.removeIfPristine h busy).2 := by
  unfold removeIfPristine
  rw [place]
  dsimp only
  split
  · have unlisted : Elsewhere n.key h (r.put h { n with retired := true })
        ((r.put h { n with retired := true }).unlist n.key) :=
      ⟨fun k ne => lookup_filter_ne.trans (if_neg ne), fun _ _ _ place => place⟩
    exact (elsewhere_put _).trans unlisted
  · exact .refl

theorem elsewhere_putBack (place : r.get? h = some n) (key_eq : n'.key = n.key) :
    Elsewhere n.key h r ((r.put h n').removeIfPristine h false).2 := by
  have there : (r.put h n').get? h = some n' := (get?_put place h).trans (if_pos rfl)
  rw [← key_eq]
  exact (elsewhere_put n').trans (elsewhere_removeIfPristine there false)

end Register

theorem Call.Concerns.unique {p : Proxy} {call : Call} {key key' : RegisterKey}
    (concerns : call.Concerns p key) (concerns' : call.Concerns p key') : key' = key := by
  cases concerns with
  | drawn id_eq drew =>
    cases concerns' with
    | drawn id_eq' drew' =>
      cases drew.symm.trans drew'
      rfl
    | named named =>
      obtain ⟨id, same, -⟩ := named
      cases id_eq.symm.trans same
  | named named =>
    cases concerns' with
    | drawn id_eq drew =>
      obtain ⟨id, same, -⟩ := named
      cases id_eq.symm.trans same
    | named named' =>
      cases call with
      | order relay order =>
        cases order with
        | offer checked now r =>
          obtain ⟨id, here, rfl⟩ := named
          obtain ⟨id', here', rfl⟩ := named'
          cases here.symm.trans here'
          rfl
        | accept now r => exact named'.trans named.symm
        | reject now r => exact named'.trans named.symm
      | message relay now m =>
        obtain ⟨a, b, owned, counter, rfl⟩ := named
        obtain ⟨a', b', owned', counter', rfl⟩ := named'
        cases owned.symm.trans owned'
        cases counter.symm.trans counter'
        rfl

namespace Proxy

variable {p p' p₁ : Proxy} {n n' : Negotiation} {h : Handle} {m : Message} {b : Party} {call : Call}
variable {result : Except Error Unit} {relay : Relay} {P : Negotiation → Prop}

/-- That an operation touched nothing but the negotiation it is about. -/
structure Spares (call : Call) (p p' : Proxy) : Prop where
  listed : ∀ key, ¬ call.Concerns p key →
    p'.register.listed.lookup key = p.register.listed.lookup key
  negotiations : ∀ h n, p.register.get? h = some n →
    (∀ key, call.Concerns p key → p.register.listed.lookup key ≠ some h) →
    p'.register.get? h = some n
  listings : ∀ id, (∀ key, call.Concerns p key → key.2 ≠ id) → p'.definitionsOf id = p.definitionsOf id
  named : ∀ h m, p.bank.get? h = some m → p'.bank.get? h = some m

theorem Spares.find? {key : RegisterKey} (spares : Spares call p p') (sound : p.register.Sound P)
    (other : ¬ call.Concerns p key) (found : p.register.find? key = some (h, n)) :
    p'.register.find? key = some (h, n) := by
  obtain ⟨listed, place⟩ := Register.find?_eq_some_iff.1 found
  refine Register.find?_eq_some_iff.2 ⟨(spares.listed key other).trans listed, ?_⟩
  refine spares.negotiations h n place fun key' concerns there => other ?_
  rw [← sound.key_unique found (Register.find?_eq_some_iff.2 ⟨there, place⟩)]
  exact concerns

theorem Picks.concerns (picks : Picks p call p₁ h n) (sound : p.register.Sound P) :
    call.Concerns p n.key := by
  cases picks with
  | known named found => exact .named (sound.key_eq found ▸ named)
  | opened drawn owned_mem isOwned counter_mem isCounter missing concerns => exact concerns

theorem Picks.elsewhere (picks : Picks p call p₁ h n) :
    p.register.Elsewhere n.key h p₁.register := by
  cases picks with
  | known named found => exact .refl
  | @opened drawn id a b =>
    have opens := Register.elsewhere_insert { p.register with drawn } id a b
    exact ⟨opens.listed, opens.kept⟩

theorem Picks.handle_ne {h' : Handle} (picks : Picks p call p₁ h n)
    (place : p.register.get? h' = some n')
    (apart : ∀ key, call.Concerns p key → p.register.listed.lookup key ≠ some h') : h' ≠ h := by
  rintro rfl
  cases picks with
  | known named found =>
    exact apart _ (.named named) (Register.find?_eq_some_iff.1 found).1
  | opened =>
    rw [Register.get?_length] at place
    cases place

theorem Picks.spares (picks : Picks p call p₁ h n) (sound : p.register.Sound P)
    (register : p₁.register.Elsewhere n.key h p'.register)
    (listings : ∀ id, n.id ≠ id → p'.definitionsOf id = p.definitionsOf id)
    (grows : p.bank.Grows p'.bank) : Spares call p p' := by
  have concerns := picks.concerns sound
  have elsewhere := picks.elsewhere.trans register
  exact {
    listed := fun key other => elsewhere.listed key fun same => other (same ▸ concerns)
    negotiations := fun h' n' place apart =>
      elsewhere.kept h' n' (picks.handle_ne place apart) place
    listings := fun id apart => listings id (apart n.key concerns)
    named := fun _ _ => grows.get? }

theorem Ends.spares (ends : Ends p call result p') (settled : p.Settled P)
    (placed : p.bank.Placed) : Spares call p p' := by
  have sound := settled.register
  have grows := ends.grows settled
  cases ends with
  | idle e drawn =>
    exact ⟨fun _ _ => rfl, fun _ _ place _ => place, fun _ _ => rfl, fun _ _ named => named⟩
  | refused e picks stays =>
    refine picks.spares sound (Register.elsewhere_putBack picks.get?_eq stays.key_eq) (fun id _ => ?_)
      grows
    exact congrArg (·.ofNegotiation id) picks.bank_eq
  | unbanked e picks said takes failed =>
    refine picks.spares sound (Register.elsewhere_put _) (fun id _ => ?_) grows
    exact congrArg (·.ofNegotiation id) picks.bank_eq
  | committed picks said takes stores failing =>
    refine picks.spares sound (Register.elsewhere_put _) (fun id other => ?_) grows
    -- what is listed belongs to the negotiation that was picked
    obtain same | ⟨here, -⟩ := stores.ofNegotiation placed id
    · exact same
    · exact absurd (takes.id_eq.symm.trans here) other

theorem Standing.placed_run (standing : p.Standing) (placed : p.bank.Placed) (calls : List Call) :
    (p.run calls).bank.Placed := by
  obtain ⟨ds, takes⟩ := run_takes standing calls
  rw [takes.bank_eq]
  exact (Bank.keepAll_grows _ _ ds).placed placed

theorem concerns_of_makeOffer {checked now : Instant} {r : OfferRequest} {id : NegotiationId}
    (wf : p.parties.directory.WellFormed) (id_eq : r.id = none)
    (made : (p.makeOffer relay checked now r).result = .ok id) :
    Call.Concerns p (.order relay (.offer checked now r)) (.of r.offerorName r.receiverName, id) := by
  cases p.proposes checked now r with
  | declined _ same =>
    rw [same] at made
    cases made
  | exhausted _ same =>
    rw [same] at made
    cases made
  | known _ named _ _ => cases named.symm.trans id_eq
  | opened _ asked _ drew same =>
    have engages := engages_of_requested wf asked
    rw [same] at made
    obtain ⟨_, -, rfl⟩ := Bank.map_eq_ok_iff.1 made
    rw [engages.offeror_name, engages.receiver_name] at drew
    exact .drawn id_eq drew

/-- Whatever was asked of a proxy that started with nothing registered, every operation is about one
negotiation at most, an opening offer about the one whose id it gives, and touches nothing else. -/
theorem perform_spares {parties : List Party} {ps : Parties} {held : Settings}
    (made : Parties.ofList parties held = .ok ps) (templates : Templates) (s : Settings)
    (ids : Nat → NegotiationId) (calls : List Call) :
    let p := (start ps templates s ids).run calls
    ∀ call, Spares call p (p.perform call).proxy ∧
      (∀ key key', call.Concerns p key → call.Concerns p key' → key' = key) ∧
      ∀ relay checked now r id, call = .order relay (.offer checked now r) → r.id = none →
        (p.makeOffer relay checked now r).result = .ok id →
        call.Concerns p (.of r.offerorName r.receiverName, id) := by
  intro p call
  have started : (start ps templates s ids).Standing :=
    standing_start (Parties.ofList_eq_ok made).2.2
  have standing : p.Standing := run_standing started calls
  have placed : p.bank.Placed := started.placed_run (Bank.placed_empty _) calls
  refine ⟨(perform_ends standing.wellFormed call).spares standing.settled placed,
    fun _ _ => Call.Concerns.unique, ?_⟩
  rintro relay checked now r id rfl id_eq given
  exact concerns_of_makeOffer standing.wellFormed id_eq given

end Proxy

namespace Sample

theorem id_of_concerns {p : Proxy} {key : RegisterKey} {m : Message}
    (concerns : Call.Concerns p (.message relay now m) key) : key.2 = m.id := by
  cases concerns with
  | named named =>
    obtain ⟨a, b, -, -, rfl⟩ := named
    rfl

theorem another_offer_spares :
    Parties.ofList [owned "Buyer" buyerSeed, counter "Seller" sellerSeed] settings = .ok parties ∧
    let p' := ((offered 7).perform (.message relay now (offer 8).message)).proxy
    (offered 7).register.registered? (pending 7).key = some (pending 7) ∧
      p'.register.registered? (pending 7).key = some (pending 7) ∧
      p'.definitionsOf 7 = (offered 7).definitionsOf 7 := by
  refine ⟨parties_ofList, offered_known 7, ?_⟩
  obtain ⟨spares, -⟩ := Proxy.perform_spares parties_ofList templates settings (fun i => .ofNat i)
    [.message relay now (offer 7).message] (.message relay now (offer 8).message)
  rw [← proxy, ← offered] at spares
  have other : ∀ key, Call.Concerns (offered 7) (.message relay now (offer 8).message) key →
      key.2 ≠ 7 := by
    intro key concerns same
    have eight : (8 : NegotiationId) = 7 := (id_of_concerns concerns).symm.trans same
    exact absurd eight (by decide)
  have sound := (parties_reachable [.message relay now (offer 7).message]).steady.register
  obtain ⟨h, found⟩ := Register.registered?_eq_some (offered_known 7)
  have kept := spares.find? sound (fun concerns => other _ concerns rfl) found
  exact ⟨Register.registered?_of_find? kept, spares.listings 7 other⟩

end Sample

end Parley
