import Parley.Proofs.Negotiation.Exchange
import Parley.Proofs.Template

namespace Parley

namespace Negotiation

variable {n n' : Negotiation} {s : Settings} {ctx ctx' : UpdateContext} {m : Message}
variable {p q p' q' : Party}

structure Agrees (n n' : Negotiation) : Prop where
  id_eq : n'.id = n.id
  offers_eq : n'.offers = n.offers
  acceptance_eq : n'.acceptance = n.acceptance
  rejection_eq : n'.rejection = n.rejection
  status_eq : n'.status = n.status
  active_eq : n'.active = n.active
  retired_eq : n'.retired = n.retired

theorem agrees_start (id : NegotiationId) (a b a' b' : Party) :
    (start id a b).Agrees (start id a' b') :=
  ⟨rfl, rfl, rfl, rfl, rfl, rfl, rfl⟩

theorem Agrees.apply {a b : Party} (agrees : n.Agrees n') (names : b.name = a.name) :
    (n.apply m a).Agrees (n'.apply m b) := by
  obtain ⟨id_eq, offers_eq, acceptance_eq, rejection_eq, status_eq, active_eq, retired_eq⟩ := agrees
  cases m with
  | offer m => exact ⟨id_eq, by simp [Negotiation.apply, offers_eq], acceptance_eq, rejection_eq, rfl,
      by simp [Negotiation.apply, names], retired_eq⟩
  | acceptance m => exact ⟨id_eq, offers_eq, rfl, rejection_eq, rfl,
      by simp [Negotiation.apply, names], retired_eq⟩
  | rejection m => exact ⟨id_eq, offers_eq, acceptance_eq, rfl, rfl,
      by simp [Negotiation.apply, names], retired_eq⟩

/-- The negotiation of `p`, which is owned, with `q`, and how the other side holds it: there `q'` is
owned, and the parties were built from the same certificates. -/
structure Mirrored (s : Settings) (p q p' q' : Party) (n n' : Negotiation) : Prop where
  near : n.Sides s p q
  far : n'.Sides s q' p'
  certificate_eq : p'.certificate = p.certificate
  certificate_eq' : q'.certificate = q.certificate
  agrees : n.Agrees n'

theorem lastOffer?_eq (agrees : n.Agrees n') : n'.lastOffer? = n.lastOffer? := by
  simp only [lastOffer?, agrees.offers_eq]

inductive Ask where
  | offer (validAfter validUntil : Instant) (contracts : List Contract)
  | acceptance
  | rejection

def prepareFor (n : Negotiation) (ctx : UpdateContext) (actor : Party) :
    Ask → Except Error Prepared × Negotiation
  | .offer validAfter validUntil contracts =>
    n.prepareOffer ctx actor validAfter validUntil contracts
  | .acceptance => n.prepareAcceptance ctx actor
  | .rejection => n.prepareRejection ctx actor

theorem prepareFor_prepares (sides : n.Sides ctx.settings p q) (ask : Ask) :
    n.Prepares ctx p q (n.prepareFor ctx p ask) := by
  cases ask with
  | offer validAfter validUntil contracts => exact prepareOffer_prepares sides
  | acceptance => exact prepareAcceptance_prepares sides
  | rejection => exact prepareRejection_prepares sides

theorem isOwned_of_prepare {kind : MessageKind} {prepared : Prepared}
    {draft : Party → SignatureScheme → Except Error Message}
    (ready : (n.prepare ctx p kind draft).1 = .ok prepared) : p.isOwned = true := by
  unfold Party.isOwned
  cases key : p.key with
  | some k => rfl
  | none =>
    unfold prepare at ready
    cases receiver : n.counterpartOf p with
    | error e => simp [receiver, bind, Except.bind] at ready
    | ok q => simp [receiver, Party.ownedKey, key, bind, Except.bind] at ready

theorem isOwned_of_prepareFor {ask : Ask} {prepared : Prepared}
    (ready : (n.prepareFor ctx p ask).1 = .ok prepared) : p.isOwned = true := by
  cases ask with
  | offer validAfter validUntil contracts => exact isOwned_of_prepare ready
  | acceptance => exact isOwned_of_prepare ready
  | rejection => exact isOwned_of_prepare ready

theorem Sides.eq_owned {a : Party} (sides : n.Sides s p q) (mem : a ∈ n.parties)
    (owned : a.isOwned = true) : a = p := by
  have ne : a ≠ q := by
    rintro rfl
    exact Bool.false_ne_true (sides.isCounter.symm.trans owned)
  have among : a = n.first ∨ a = n.second := by simpa [parties] using mem
  obtain ⟨first, second⟩ | ⟨first, second⟩ := sides.joins
  · exact among.elim (·.trans first) fun eq => absurd (eq.trans second) ne
  · exact among.elim (fun eq => absurd (eq.trans first) ne) (·.trans second)

theorem Agrees.checkTurn {kind : MessageKind} {t t' : Instant} (agrees : n.Agrees n')
    (names : p'.name = p.name)
    (running : ∀ last, n.lastOffer? = some last → ¬ last.validUntil < t')
    (turn : n.checkTurn p kind t = .ok ()) : n'.checkTurn p' kind t' = .ok () := by
  have lapsed : n'.hasLapsed t' = false := by
    unfold hasLapsed
    rw [lastOffer?_eq agrees]
    cases h : n.lastOffer? with
    | none => simp
    | some last => simp [Offer.isExpired, running last h]
  rw [checkTurn_eq_ok_iff] at turn ⊢
  rw [agrees.retired_eq, agrees.status_eq, agrees.active_eq, names]
  refine ⟨turn.1, ?_⟩
  obtain opening | ⟨offering, -, active⟩ := turn.2
  · exact .inl opening
  · exact .inr ⟨offering, lapsed, active⟩

theorem Agrees.checkContent (agrees : n.Agrees n') (templates_eq : ctx'.templates = ctx.templates)
    (settings_eq : ctx'.settings = ctx.settings)
    (current : ∀ o, m = .offer o → ¬ o.validUntil < ctx'.now)
    (content : n.checkContent ctx m = .ok ()) : n'.checkContent ctx' m = .ok () := by
  cases m with
  | offer o =>
    rw [checkContent_offer_eq_ok_iff] at content ⊢
    obtain ⟨⟨some_contracts, order, -⟩, known⟩ := content
    rw [templates_eq]
    exact ⟨⟨some_contracts, order, current o rfl⟩, known⟩
  | acceptance a =>
    simp only [Negotiation.checkContent, checkOfferHash_eq_ok_iff] at content ⊢
    rw [settings_eq, lastOffer?_eq agrees]
    exact content
  | rejection r =>
    simp only [Negotiation.checkContent, checkOfferHash_eq_ok_iff] at content ⊢
    rw [settings_eq, lastOffer?_eq agrees]
    exact content

theorem Admits.mirror (admits : n.Admits ctx p q m)
    (mirrored : Mirrored ctx.settings p q p' q' n n')
    (templates_eq : ctx'.templates = ctx.templates) (settings_eq : ctx'.settings = ctx.settings)
    (running : ∀ last, n.lastOffer? = some last → ¬ last.validUntil < ctx'.now)
    (current : ∀ o, m = .offer o → ¬ o.validUntil < ctx'.now) : n'.Admits ctx' p' q' m := by
  obtain ⟨name_eq, fingerprints_eq, -⟩ := mirrored.far.counter_built.same mirrored.near.owned_built
    mirrored.certificate_eq
  obtain ⟨-, fingerprints_eq', -⟩ := mirrored.far.owned_built.same mirrored.near.counter_built
    mirrored.certificate_eq'
  refine ⟨?_, ?_, ?_, ?_, ?_, ?_⟩
  · rw [mirrored.agrees.id_eq, admits.id_eq]
  · rw [fingerprints_eq]
    exact admits.sender_mem
  · rw [fingerprints_eq']
    exact admits.receiver_mem
  · exact mirrored.agrees.checkTurn name_eq running admits.turn
  · exact mirrored.agrees.checkContent templates_eq settings_eq current admits.content
  · rw [settings_eq]
    exact Party.verify_of_certificate_eq mirrored.certificate_eq admits.verified

/-- Whatever one side prepares, the other side takes if it comes in time, and once it is committed
the two sides stand the same again. -/
theorem receive_prepared {templates : Templates} {t t' : Instant} {actor : Party} {ask : Ask}
    {prepared : Prepared} (mirrored : Mirrored s p q p' q' n n') (mem : actor ∈ n.parties)
    (ready : (n.prepareFor ⟨templates, s, t⟩ actor ask).1 = .ok prepared)
    (timely : (prepared.message.signature.timestamp.apart t').nanoseconds ≤
      s.timestampTolerance.nanoseconds)
    (running : ∀ last, n.lastOffer? = some last → ¬ last.validUntil < t')
    (current : ∀ o, prepared.message = .offer o → ¬ o.validUntil < t') :
    ∃ sent received,
      n'.receive ⟨templates, s, t'⟩ prepared.message = (.ok (), received) ∧
      (n.prepareFor ⟨templates, s, t⟩ actor ask).2.commit ⟨prepared⟩ =
        (.ok prepared.message, sent) ∧
      Mirrored s p q p' q' sent received := by
  obtain rfl := mirrored.near.eq_owned mem (isOwned_of_prepareFor ready)
  have prepares : n.Prepares ⟨templates, s, t⟩ actor q
      (n.prepareFor ⟨templates, s, t⟩ actor ask) := prepareFor_prepares mirrored.near ask
  obtain ⟨admits, prepared_eq, same⟩ := prepares.of_ok ready
  have admits' : n'.Admits ⟨templates, s, t'⟩ p' q' prepared.message :=
    admits.mirror mirrored rfl rfl running current
  obtain ⟨name_eq, -, -⟩ := mirrored.far.owned_built.same mirrored.near.counter_built
    mirrored.certificate_eq'
  refine ⟨n.apply prepared.message q, n'.apply prepared.message q', ?_, ?_, ?_⟩
  · exact mirrored.far.receive_eq_ok_iff.2 ⟨rfl, admits', checkTimestamp_eq_ok_iff.2 timely⟩
  · rw [prepared_eq, same]
    exact commit_ready admits.turn
  · exact ⟨mirrored.near.apply, mirrored.far.apply, mirrored.certificate_eq,
      mirrored.certificate_eq', mirrored.agrees.apply name_eq⟩

end Negotiation

theorem Templates.validate_of_single {t : Template} {c : Contract} (mem : c.templateHash ∈ t.hashes)
    (fits : t.validate c.arguments = .ok ()) : (⟨⟨[t]⟩⟩ : Templates).validate c = .ok t := by
  have found : (⟨⟨[t]⟩⟩ : Templates).byHash c.templateHash = .ok t := by
    simp [byHash, Directory.byHash?, Listed.hashes, mem]
  simp only [validate, found, fits, bind, Except.bind]
  rfl

namespace Sample

open Negotiation

def template : Template where
  name := "Goods"
  text := "goods"
  parameters := []
  hashes := [.of .sha512 (Text.utf8 "goods")]
  preferredHash := .of .sha512 (Text.utf8 "goods")

theorem template_built : template.Built settings := by
  have slots : Placeholder.scan "goods" = [] := by
    simp [Placeholder.scan, pieces, Placeholder.ofPieces]
  refine ⟨"Goods", "goods", Template.define_eq_ok_iff.2 ⟨by decide, .sha512, by decide, ?_⟩⟩
  rw [slots]
  rfl

def templates : Templates := ⟨⟨[template]⟩⟩

theorem templates_ofList : Templates.ofList [template] = .ok templates := by
  rfl

def contract : Contract := ⟨template.preferredHash, .empty⟩

theorem validate_contract : templates.validate contract = .ok template := by
  -- by name, as the digest is not to be worked out
  have hashes_eq : template.hashes = [template.preferredHash] := rfl
  have hash_eq : contract.templateHash = template.preferredHash := rfl
  have fits : template.validate contract.arguments = .ok () := rfl
  refine Templates.validate_of_single ?_ fits
  rw [hash_eq, hashes_eq]
  exact List.mem_singleton_self _

def buying (id : NegotiationId) : Negotiation :=
  .start id (owned "Buyer" buyerSeed) (counter "Seller" sellerSeed)

def selling (id : NegotiationId) : Negotiation :=
  .start id (owned "Seller" sellerSeed) (counter "Buyer" buyerSeed)

theorem apart_of_ne {c c' : Certificate} (names : Text.trim c.commonName ≠ Text.trim c'.commonName)
    (prints : c.fingerprint .sha512 ≠ c'.fingerprint .sha512) (key key' : Option OwnedKey) :
    Directory.Apart (Party.ofCertificate c key settings) (Party.ofCertificate c' key' settings) := by
  refine ⟨names, ?_⟩
  intro h mem mem'
  simp only [Listed.hashes, Party.ofCertificate, settings, List.map_cons, List.map_nil,
    List.mem_singleton] at mem mem'
  exact prints (mem.symm.trans mem')

theorem apart (key key' : Option OwnedKey) :
    Directory.Apart (Party.ofCertificate (certificate "Buyer" buyerSeed) key settings)
      (Party.ofCertificate (certificate "Seller" sellerSeed) key' settings) :=
  apart_of_ne (by decide) fingerprint_ne key key'

section sides

variable {name name' : String} {seed seed' : List UInt8}

theorem start_sides (id : NegotiationId) (named : (Text.trim name).isEmpty = false)
    (named' : (Text.trim name').isEmpty = false)
    (apart : Directory.Apart (owned name seed) (counter name' seed')) :
    (start id (owned name seed) (counter name' seed')).Sides settings (owned name seed)
      (counter name' seed') where
  joins := .inl ⟨rfl, rfl⟩
  owned_built := built_owned seed named
  counter_built := built_counter seed' named'
  isOwned := rfl
  isCounter := rfl
  apart := apart

end sides

theorem buying_sides (id : NegotiationId) :
    (buying id).Sides settings (owned "Buyer" buyerSeed) (counter "Seller" sellerSeed) :=
  start_sides id (by decide) (by decide) (apart _ _)

theorem selling_sides (id : NegotiationId) :
    (selling id).Sides settings (owned "Seller" sellerSeed) (counter "Buyer" buyerSeed) :=
  start_sides id (by decide) (by decide) (symm (apart _ _))

theorem mirrored (id : NegotiationId) : Mirrored settings (owned "Seller" sellerSeed)
    (counter "Buyer" buyerSeed) (counter "Seller" sellerSeed) (owned "Buyer" buyerSeed)
    (selling id) (buying id) where
  near := selling_sides id
  far := buying_sides id
  certificate_eq := rfl
  certificate_eq' := rfl
  agrees := agrees_start id _ _ _ _

def offerFrom (name : String) (seed : List UInt8) (id : NegotiationId) : Prepared :=
  ⟨id, 0, .initial, counter "Buyer" buyerSeed, Message.sign .ed25519 seed (.offer
    ⟨id, (owned name seed).preferredFingerprint, (counter "Buyer" buyerSeed).preferredFingerprint,
      now.canonical, yearEnd.canonical, [contract], .unsigned now .ed25519⟩)⟩

def offer (id : NegotiationId) : Prepared :=
  ⟨id, 0, .initial, counter "Buyer" buyerSeed, Message.sign .ed25519 sellerSeed (.offer
    ⟨id, (owned "Seller" sellerSeed).preferredFingerprint,
      (counter "Buyer" buyerSeed).preferredFingerprint, now.canonical, yearEnd.canonical, [contract],
      .unsigned now .ed25519⟩)⟩

theorem known_contract :
    [contract].forM (fun c => (templates.validate c).map fun _ => ()) = .ok () := by
  unfold List.forM
  rw [validate_contract]
  rfl

theorem valid_contract : checkTerms [contract] now.canonical yearEnd.canonical now = .ok () := by
  rw [checkTerms_eq_ok_iff]
  exact ⟨by simp, by decide, by decide⟩

theorem prepare_offerFrom {name : String} {seed : List UInt8} {id : NegotiationId}
    (sides : (start id (owned name seed) (counter "Buyer" buyerSeed)).Sides settings
      (owned name seed) (counter "Buyer" buyerSeed)) :
    ((start id (owned name seed) (counter "Buyer" buyerSeed)).prepareFor ⟨templates, settings, now⟩
      (owned name seed) (.offer now yearEnd [contract])).1 = .ok (offerFrom name seed id) := by
  have turn : (start id (owned name seed) (counter "Buyer" buyerSeed)).checkTurn (owned name seed)
      .offer now = .ok () := rfl
  simp only [prepareFor, prepareOffer]
  rw [prepare_eq sides.counterpartOf_eq rfl turn]
  unfold Offer.validate
  dsimp only
  rw [known_contract, valid_contract]
  unfold offerFrom
  rfl

theorem prepare_offer (id : NegotiationId) :
    ((selling id).prepareFor ⟨templates, settings, now⟩ (owned "Seller" sellerSeed)
      (.offer now yearEnd [contract])).1 = .ok (offer id) :=
  prepare_offerFrom (selling_sides id)

end Sample

theorem Negotiation.receive_prepared_offer : ∃ sent received,
    (Sample.buying 7).receive ⟨Sample.templates, Sample.settings, Sample.now⟩
      (Sample.offer 7).message = (.ok (), received) ∧
    ((Sample.selling 7).prepareFor ⟨Sample.templates, Sample.settings, Sample.now⟩
      (Sample.selling 7).first (.offer Sample.now Sample.yearEnd [Sample.contract])).2.commit
        ⟨Sample.offer 7⟩ = (.ok (Sample.offer 7).message, sent) ∧
    Mirrored Sample.settings (Sample.selling 7).first (Sample.selling 7).second
      (Sample.buying 7).second (Sample.buying 7).first sent received :=
  receive_prepared (Sample.mirrored 7) (List.mem_cons_self) (Sample.prepare_offer 7) (by decide)
    (by rintro _ ⟨⟩) (by rintro o ⟨⟩; decide)

end Parley
