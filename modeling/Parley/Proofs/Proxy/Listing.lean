import Parley.Proofs.Negotiation.Delivery
import Parley.Proofs.Proxy.Archive

namespace Parley

namespace Negotiation

variable {n n' : Negotiation} {ps : Parties} {templates : Templates} {s : Settings}
variable {ctx : UpdateContext} {m m' : Message} {a b : Party} {h : Digest}

/-- That a message is from one of the two parties of a negotiation to the other. -/
def Between (n : Negotiation) (m : Message) : Prop :=
  ∃ a b, n.Joins a b ∧ m.sender ∈ a.fingerprints ∧ m.receiver ∈ b.fingerprints

theorem between_congr (first_eq : n'.first = n.first) (second_eq : n'.second = n.second) :
    n'.Between m ↔ n.Between m := by
  simp only [Between, Joins, first_eq, second_eq]

theorem partyByFingerprint_eq_ok (found : n.partyByFingerprint h = .ok a) :
    (a = n.first ∨ a = n.second) ∧ h ∈ a.fingerprints := by
  unfold partyByFingerprint at found
  split at found
  next party known =>
    cases found
    refine ⟨by simpa [parties] using List.mem_of_find?_eq_some known, ?_⟩
    simpa [Party.hasFingerprint] using List.find?_some known
  · cases found

theorem ends_of_route (route : n.inboundRoute m = .ok (a, b)) (seated : n.Seated ps) :
    n.second = a ∧ n.first = b ∧ m.sender ∈ a.fingerprints ∧ m.receiver ∈ b.fingerprints := by
  obtain ⟨-, found, found', isCounter, isOwned⟩ := inboundRoute_eq_ok route
  obtain ⟨sides, sent⟩ := partyByFingerprint_eq_ok found
  obtain ⟨sides', addressed⟩ := partyByFingerprint_eq_ok found'
  have fromSecond : a = n.second := sides.resolve_left fun same => by
    rw [same, seated.isOwned] at isCounter
    cases isCounter
  have toFirst : b = n.first := sides'.resolve_right fun same => by
    rw [same, seated.isCounter] at isOwned
    cases isOwned
  exact ⟨fromSecond.symm, toFirst.symm, sent, addressed⟩

theorem ends_of_receive (received : n.receive ctx m = (.ok (), n.apply m b)) (seated : n.Seated ps) :
    m.sender ∈ n.second.fingerprints ∧ m.receiver ∈ n.first.fingerprints ∧ b.name = n.first.name := by
  obtain ⟨sender, receiver, route, -, same⟩ := route_of_receive received
  obtain ⟨rfl, rfl, sent, addressed⟩ := ends_of_route route seated
  have active_eq : some b.name = some n.first.name := by
    have active_eq := congrArg Negotiation.active same
    cases m <;> exact active_eq
  exact ⟨sent, addressed, Option.some.inj active_eq⟩

theorem Takes.between (takes : n.Takes ps ctx m b) (seated : n.Seated ps)
    (wf : ps.directory.WellFormed)
    (named : ∀ a ∈ ps.directory.entries, a.preferredFingerprint ∈ a.fingerprints) :
    ∃ x y, n.Joins x y ∧ m.sender ∈ x.fingerprints ∧ m.receiver ∈ y.fingerprints ∧ b.name = y.name := by
  cases takes with
  | inbound received =>
    obtain ⟨sent, addressed, name_eq⟩ := ends_of_receive received seated
    exact ⟨n.second, n.first, .inr ⟨rfl, rfl⟩, sent, addressed, name_eq⟩
  | outbound actor ask mem ready =>
    obtain ⟨isFirst, isSecond⟩ := parties_of_prepareFor wf seated.owned_mem seated.counter_mem
      seated.isCounter mem ready
    obtain ⟨sent, addressed⟩ := ends_of_prepareFor ready
    obtain rfl : n.second = b := isSecond
    refine ⟨actor, n.second, .inl ⟨isFirst, rfl⟩, ?_, ?_, rfl⟩
    · exact sent ▸ named actor mem
    · exact addressed ▸ named n.second seated.counter_mem

structure Spoken (ps : Parties) (n : Negotiation) : Prop where
  seated : n.Seated ps
  between : ∀ m ∈ n.messages, n.Between m

theorem lasts_spoken (wf : ps.directory.WellFormed)
    (named : ∀ a ∈ ps.directory.entries, a.preferredFingerprint ∈ a.fingerprints) :
    Proxy.Lasts ps templates s (Spoken ps) := by
  have seats : Proxy.Lasts ps templates s (Seated ps) := lasts_seated
  constructor
  case start =>
    intro id a b owned_mem isOwned counter_mem isCounter
    exact ⟨seats.start id owned_mem isOwned counter_mem isCounter, fun m mem => by cases mem⟩
  case notice =>
    intro n now spoken
    refine ⟨seats.notice n now spoken.seated, ?_⟩
    obtain ⟨status, changed⟩ := n.notice_eq_withStatus now
    rw [changed]
    exact spoken.between
  case retire =>
    intro n spoken
    exact ⟨seats.retire n spoken.seated, spoken.between⟩
  case take =>
    intro n now m b spoken takes
    have unclosed := spoken.seated.unclosed.closing_eq_nil takes
    refine ⟨seats.take n now m b spoken.seated takes, fun m' mem => ?_⟩
    rw [between_congr first_apply second_apply]
    rw [messages_apply unclosed] at mem
    obtain mem | mem := List.mem_append.1 mem
    · exact spoken.between m' mem
    · obtain rfl := List.mem_singleton.1 mem
      obtain ⟨x, y, joins, sent, addressed, -⟩ := takes.between spoken.seated wf named
      exact ⟨x, y, joins, sent, addressed⟩

end Negotiation

namespace Proxy

variable {p : Proxy} {n : Negotiation} {m : Message} {id : NegotiationId}

theorem Reachable.holds {P : Negotiation → Prop} (reachable : p.Reachable)
    (lasts : Lasts p.parties p.templates p.settings P) : ∀ n ∈ p.register.negotiations, P n := by
  obtain ⟨parties, ps, templates, s, held, ids, calls, built, made⟩ := reachable
  have started : (start ps templates s ids).Reachable :=
    .run parties ps templates s held ids [] built made
  have basis := started.basis_run calls
  rw [basis.parties_eq, basis.templates_eq, basis.settings_eq] at lasts
  exact (run_lasts started.steady.wellFormed lasts (Register.sound_empty _ _) calls).2.holds

theorem Reachable.spoken (reachable : p.Reachable) :
    ∀ n ∈ p.register.negotiations, n.Spoken p.parties :=
  reachable.holds (Negotiation.lasts_spoken reachable.steady.wellFormed reachable.steady.named)

theorem Reachable.committed (reachable : p.Reachable) (mem : m ∈ p.definitionsOf id) :
    ∃ key, key.2 = id ∧ m ∈ p.log key := by
  obtain ⟨parties, ps, templates, s, held, ids, calls, built, made⟩ := reachable
  have standing : (start ps templates s ids).Standing :=
    standing_start (Parties.ofList_eq_ok made).2.2
  obtain ⟨ds, takes⟩ := run_takes standing calls
  unfold definitionsOf at mem
  rw [takes.bank_eq] at mem
  obtain old | ⟨here, d, deposited, listed, rfl⟩ :=
    Bank.mem_ofNegotiation_keepAll (Bank.placed_empty _) mem
  · cases old
  · have entered : d.message ∈ ((start ps templates s ids).history calls).map (·.2) := by
      rw [← takes.listed]
      exact List.mem_map_of_mem (List.mem_filter.2 ⟨deposited, listed⟩)
    obtain ⟨entry, mem, same⟩ := List.mem_map.1 entered
    have id_eq := (history_gives standing calls entry mem).1
    refine ⟨entry.1, by rw [← id_eq, same, here], ?_⟩
    rw [run_logs standing calls entry.1, ← same]
    exact List.mem_append_right _ (List.mem_map_of_mem (List.mem_filter.2 ⟨mem, by simp⟩))

/-- Whatever a proxy was asked and given and whatever it fetched: what it lists under the id of a
negotiation was said in it, by one of its parties to the other; or else it was said in a negotiation
that another pair has under the same id, by one of their parties to the other. -/
theorem listed_between (reachable : p.Reachable)
    (known : p.register.registered? n.key = some n) : ∀ m ∈ p.definitionsOf n.id,
    (m ∈ n.messages ∧ n.Between m) ∨
      ∃ n', p.register.registered? n'.key = some n' ∧ n'.id = n.id ∧ n'.pair ≠ n.pair ∧
        m ∈ n'.messages ∧ n'.Between m := by
  intro m mem
  have sound := reachable.steady.register
  obtain ⟨key, id_eq, logged⟩ := reachable.committed mem
  obtain ⟨n', found⟩ : ∃ n', p.register.registered? key = some n' := by
    cases found : p.register.registered? key with
    | some n' => exact ⟨n', rfl⟩
    | none =>
      rw [log, found] at logged
      cases logged
  rw [log_of_registered? found] at logged
  have between := (reachable.spoken n' (Register.mem_of_registered? found)).between m logged
  obtain ⟨h, found'⟩ := Register.registered?_eq_some found
  have key_eq : n'.key = key := sound.key_eq found'
  have id_eq' : n'.id = n.id := (congrArg Prod.snd key_eq).trans id_eq
  by_cases pair_eq : n'.pair = n.pair
  · have same : n'.key = n.key := Prod.ext pair_eq id_eq'
    rw [← key_eq, same, known] at found
    obtain rfl := Option.some.inj found
    exact .inl ⟨logged, between⟩
  · exact .inr ⟨n', key_eq ▸ found, id_eq', pair_eq, logged, between⟩

theorem Steady.listing_grows (steady : p.Steady) (call : Call) (id : NegotiationId) :
    p.definitionsOf id <+: (p.perform call).proxy.definitionsOf id := by
  unfold definitionsOf
  obtain ⟨-, traceless⟩ | ⟨n, m, b, keeps, -⟩ := (perform_ends steady.wellFormed call).cases steady
  · rw [traceless.bank_eq]
  · obtain same | ⟨-, added⟩ := keeps.listing steady id
    · rw [same]
    · rw [added]
      exact List.prefix_append _ _

end Proxy

namespace Bank

variable {b b' : Bank} {m : Message} {a : HashAlgorithm} {others : List HashAlgorithm}

theorem listings_ne_of_add {changed : Bool} (added : b.add m = .ok (changed, b'))
    (accepted_eq : b.accepted = a :: others)
    (unlisted : b.listed.contains (Digest.of a m.canonicalBytes) = false) :
    b'.listings ≠ b.listings := by
  unfold add store at added
  simp only [accepted_eq, List.map_cons, unlisted, Bool.not_false, Bool.and_true, if_true] at added
  split at added
  · cases added
  · cases added
    simp

theorem Stores.mem_ofNegotiation (stores : b.Stores m b') (placed : b.Placed)
    (accepted_eq : b.accepted = a :: others)
    (unlisted : b.listed.contains (Digest.of a m.canonicalBytes) = false) :
    m ∈ b'.ofNegotiation m.id := by
  obtain ⟨changed, b₁, added, grows, same⟩ := stores
  obtain ⟨place, missing, adds⟩ := store_eq_ok added
  have longer := listings_ne_of_add added accepted_eq unlisted
  obtain ⟨-, listings_eq⟩ := adds.listings.resolve_left longer
  rw [grows.ofNegotiation_eq (adds.placed placed) same]
  refine List.mem_filterMap.2 ⟨(m.id, place), List.mem_filter.2 ⟨?_, beq_self_eq_true _⟩, adds.there⟩
  rw [listings_eq]
  exact List.mem_append_right _ List.mem_cons_self

end Bank

namespace Sample
open Negotiation

def trio : Parties :=
  ⟨⟨[owned "Buyer" buyerSeed, counter "Seller" sellerSeed, carrier]⟩, settings.accepted⟩

theorem prints_apart : (certificate "Buyer" buyerSeed).fingerprint .sha512 ≠
      (certificate "Carrier" carrierSeed).fingerprint .sha512 ∧
    (certificate "Seller" sellerSeed).fingerprint .sha512 ≠
      (certificate "Carrier" carrierSeed).fingerprint .sha512 := by
  have distinct := fingerprints_nodup
  simp only [List.map_cons, List.map_nil, List.nodup_cons, List.mem_cons, not_or] at distinct
  exact ⟨distinct.1.2.1, distinct.2.1.1⟩

theorem carrier_apart (key key' : Option OwnedKey) :
    Directory.Apart (Party.ofCertificate (certificate "Buyer" buyerSeed) key settings)
      (Party.ofCertificate (certificate "Carrier" carrierSeed) key' settings) :=
  apart_of_ne (by decide) prints_apart.1 key key'

theorem rivals_apart : Directory.Apart (counter "Seller" sellerSeed) carrier :=
  apart_of_ne (by decide) prints_apart.2 none none

theorem trio_built : ∀ p ∈ [owned "Buyer" buyerSeed, counter "Seller" sellerSeed, carrier],
    p.Built settings := by
  intro p mem
  simp only [List.mem_cons, List.not_mem_nil, or_false] at mem
  obtain rfl | rfl | rfl := mem
  · exact built_owned buyerSeed (by decide)
  · exact built_counter sellerSeed (by decide)
  · exact built_counter carrierSeed (by decide)

theorem trio_ofList :
    Parties.ofList [owned "Buyer" buyerSeed, counter "Seller" sellerSeed, carrier] settings =
      .ok trio := by
  refine Parties.ofList_of_apart ?_ ?_
  · simp only [List.pairwise_cons, List.mem_cons, List.not_mem_nil, or_false, forall_eq_or_imp,
      forall_eq]
    exact ⟨⟨apart _ _, carrier_apart _ _⟩, rivals_apart, nofun, .nil⟩
  · intro p mem
    simp only [List.mem_cons, List.not_mem_nil, or_false] at mem
    obtain rfl | rfl | rfl := mem
    all_goals exact List.nodup_singleton _

def market : Proxy := .start trio templates settings fun i => .ofNat i

theorem market_sound : market.Sound :=
  Proxy.sound_start (Parties.sound_ofList trio_built trio_ofList)

theorem market_reachable (calls : List Call) : (market.run calls).Reachable :=
  .run _ _ _ _ _ _ calls (fun a mem => ⟨settings, by decide, trio_built a mem⟩) trio_ofList

def freight (id : NegotiationId) : Message := (offerFrom "Carrier" carrierSeed id).message

def hiring (id : NegotiationId) : Negotiation :=
  .start id (owned "Buyer" buyerSeed) carrier

theorem carrier_name : carrier.name = "Carrier" := by
  change Text.trim "Carrier" = "Carrier"
  decide

theorem buying_key_ne (id : NegotiationId) : (buying id).key ≠ (hiring id).key := by
  have pair_ne : (buying id).pair ≠ (hiring id).pair := by
    change PartyPair.of (owned "Buyer" buyerSeed).name (counter "Seller" sellerSeed).name ≠
      PartyPair.of (owned "Buyer" buyerSeed).name carrier.name
    rw [buyer_name, seller_name, carrier_name, Ne, PartyPair.of_eq_of_iff]
    decide
  exact fun same => pair_ne (congrArg Prod.fst same)

def hired (id : NegotiationId) : Proxy := market.run [.message relay now (freight id)]

def sought (id : NegotiationId) : Proxy := (hired id).run [.message relay now (offer id).message]

theorem receive_freight (id : NegotiationId) :
    (market.receive relay now (freight id)).proxy = hired id := by
  rw [hired, Proxy.run_cons, Proxy.run_nil, Proxy.perform_message]

theorem receive_rival (id : NegotiationId) :
    ((hired id).receive relay now (offer id).message).proxy = sought id := by
  rw [sought, Proxy.run_cons, Proxy.run_nil, Proxy.perform_message]

theorem freight_commits (id : NegotiationId) : Proxy.Commits market (hired id) now (hiring id)
    (hiring id).second (hiring id).first (freight id) := by
  have held : (hiring id).Held trio settings := held_start (by simp [trio]) (by simp [trio]) rfl rfl
  have stands : market.Stands (hiring id) := .inr ⟨Register.registered?_empty _ _, rfl⟩
  have timely : checkTimestamp (market.context now) (freight id).signature.timestamp = .ok () := by
    rw [checkTimestamp_eq_ok_iff]
    change (now.canonical.apart now).nanoseconds ≤ settings.timestampTolerance.nanoseconds
    decide
  have admits : (hiring id).Admits (market.context now) (hiring id).second (hiring id).first
      (freight id) := offerFrom_admits id (by decide) carrier_apart
  have commits := Proxy.receive_commits market_sound relay stands held admits timely
  rw [receive_freight] at commits
  exact commits

theorem sought_commits (id : NegotiationId) : Proxy.Commits (hired id) (sought id) now (buying id)
    (buying id).second (buying id).first (offer id).message := by
  have commits := freight_commits id
  have stands : (hired id).Stands (buying id) := by
    refine .inr ⟨?_, rfl⟩
    exact (commits.differs.elsewhere _ (buying_key_ne id)).trans (Register.registered?_empty _ _)
  have held : (buying id).Held (hired id).parties (hired id).settings := by
    rw [commits.basis.parties_eq, commits.basis.settings_eq]
    exact held_start (by simp [market, trio, Proxy.start]) (by simp [market, trio, Proxy.start]) rfl rfl
  have context_eq : (hired id).context now = proxy.context now := commits.basis.context_eq
  have admits := offer_admits id
  have timely := offer_timely id
  rw [← context_eq] at admits timely
  have commits' := Proxy.receive_commits commits.sound relay stands held admits timely
  rw [receive_rival] at commits'
  exact commits'

theorem freight_listed (id : NegotiationId) : freight id ∈ (hired id).definitionsOf id := by
  have steady : market.Steady := (market_reachable []).steady
  have ends := Proxy.perform_ends steady.wellFormed (.message relay now (freight id))
  rw [Proxy.perform_message, receive_freight] at ends
  obtain ⟨-, traceless⟩ | ⟨n, m, b, keeps, -⟩ := ends.cases steady
  · exact absurd traceless (freight_commits id).not_traceless
  · obtain rfl : m = freight id := keeps.said
    obtain ⟨-, failing⟩ | stores := keeps.stores
    · obtain ⟨a, -, place, other, found, -⟩ := Bank.store_eq_error_iff.1 failing
      cases found
    · exact stores.mem_ofNegotiation (Bank.placed_empty _) rfl rfl

theorem sought_reachable : (sought 7).Reachable := by
  rw [sought, hired, ← Proxy.run_append]
  exact market_reachable _

theorem sought_known : (sought 7).register.registered? (pending 7).key = some (pending 7) :=
  (sought_commits 7).differs.at_key

theorem sought_lists : freight 7 ∈ (sought 7).definitionsOf (pending 7).id := by
  have reachable : (hired 7).Reachable := market_reachable _
  have grows := reachable.steady.listing_grows (.message relay now (offer 7).message) 7
  rw [Proxy.perform_message, receive_rival] at grows
  exact grows.subset (freight_listed 7)

theorem freight_not_between : ¬ (pending 7).Between (freight 7) := by
  rintro ⟨a, b, joins, sent, -⟩
  have carried : (freight 7).sender ∈ carrier.fingerprints :=
    (offerFrom_admits 7 (by decide) carrier_apart).sender_mem
  obtain ⟨rfl, -⟩ | ⟨-, rfl⟩ := joins
  · exact (carrier_apart _ _).2 _ sent carried
  · exact rivals_apart.2 _ sent carried

theorem freight_said_elsewhere : (sought 7).Reachable ∧
    (sought 7).register.registered? (pending 7).key = some (pending 7) ∧
    freight 7 ∈ (sought 7).definitionsOf (pending 7).id ∧
    ∃ n', (sought 7).register.registered? n'.key = some n' ∧ n'.id = (pending 7).id ∧
      n'.pair ≠ (pending 7).pair ∧ freight 7 ∈ n'.messages ∧ n'.Between (freight 7) := by
  have said := Proxy.listed_between sought_reachable sought_known (freight 7) sought_lists
  exact ⟨sought_reachable, sought_known, sought_lists,
    said.resolve_left fun here => freight_not_between here.2⟩

theorem stranger_listed : ¬ ∀ (p : Proxy) (n : Negotiation), p.Reachable →
    p.register.registered? n.key = some n → ∀ m ∈ p.definitionsOf n.id, n.Between m := by
  intro between
  exact freight_not_between
    (between (sought 7) (pending 7) sought_reachable sought_known (freight 7) sought_lists)

end Sample

end Parley
