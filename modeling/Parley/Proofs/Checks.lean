import Parley.Proofs.Directory
import Parley.Proofs.Negotiation.Mirror
import Parley.Proxy

namespace Parley

def Error.Declines : Error → Prop
  | .badRequest _ _ => True
  | .contractInvalid _ _ => True
  | .notOwned _ => True
  | _ => False

/-- That whatever an outcome is, it is no error but one that declines. -/
def Checks {α : Type} (r : Except Error α) : Prop :=
  ∀ e, r = .error e → e.Declines

namespace Checks

variable {α β : Type} {x : Except Error α} {f : α → Except Error β} {g : α → β} {e : Error}

theorem ok (a : α) : Checks (.ok a) :=
  nofun

theorem error (declines : e.Declines) : Checks (.error e : Except Error α) := by
  rintro _ ⟨⟩
  exact declines

theorem bind (first : Checks x) (rest : ∀ a, Checks (f a)) : Checks (x >>= f) := by
  cases x with
  | error e => exact error (first e rfl)
  | ok a => exact rest a

theorem map (checks : Checks x) : Checks (x.map g) := by
  cases x with
  | error e => exact error (checks e rfl)
  | ok a => exact ok _

theorem ite {c : Prop} [Decidable c] {y z : Except Error α} (here : Checks y) (there : Checks z) :
    Checks (if c then y else z) := by
  split
  · exact here
  · exact there

theorem guard {c : Prop} [Decidable c] {y : Except Error β} (declines : e.Declines)
    (rest : Checks y) : Checks (if c then throw e >>= f else y) :=
  .ite (error declines) rest

theorem forM {xs : List α} {f : α → Except Error Unit} (each : ∀ a, Checks (f a)) :
    Checks (xs.forM f) := by
  induction xs with
  | nil => exact ok ()
  | cons a rest ih => exact (each a).bind fun _ => ih

end Checks

theorem Checks.mapM {α β : Type} {f : α → Except Error β} {xs : List α}
    (each : ∀ a, Checks (f a)) : Checks (xs.mapM f) :=
  fun _ failed => mapM_eq_error each failed

theorem checkTerms_checks {α : Type} (contracts : List α) (validAfter validUntil now : Instant) :
    Checks (checkTerms contracts validAfter validUntil now) :=
  .ite (.error trivial) (.ite (.error trivial) (.ite (.error trivial) (.ok ())))

namespace Parties

theorem byName_checks (ps : Parties) (role : Role) (name : String) : Checks (ps.byName role name) := by
  unfold byName
  split
  · exact .ok _
  · exact .error trivial

theorem byFingerprint_checks (ps : Parties) (role : Role) (h : Digest) :
    Checks (ps.byFingerprint role h) := by
  refine .ite (.error trivial) ?_
  split
  · exact .error trivial
  · exact .ite (.ok _) (.error trivial)

end Parties

namespace Party

theorem ownedKey_checks (p : Party) : Checks p.ownedKey := by
  unfold ownedKey
  split
  · exact .ok _
  · exact .error trivial

theorem verify_checks (p : Party) (message : List UInt8) (g : Signature) (s : Settings) :
    Checks (p.verify message g s) := by
  refine .ite (.error trivial) ?_
  split
  · exact .error trivial
  · exact .ite (.ok ()) (.error trivial)

end Party

theorem Template.validate_checks (t : Template) (arguments : Arguments) :
    Checks (t.validate arguments) := by
  unfold validate
  split
  · exact .ok ()
  · exact .error trivial

namespace Templates

theorem byName_checks (ts : Templates) (name : String) : Checks (ts.byName name) := by
  unfold byName
  split
  · exact .ok _
  · exact .error trivial

theorem byHash_checks (ts : Templates) (h : Digest) : Checks (ts.byHash h) := by
  unfold byHash
  split
  · exact .ok _
  · exact .error trivial

theorem validate_checks (ts : Templates) (c : Contract) : Checks (ts.validate c) :=
  (ts.byHash_checks _).bind fun t => (t.validate_checks _).bind fun _ => .ok t

theorem forM_validate_checks (ts : Templates) (contracts : List Contract) :
    Checks (contracts.forM fun c => (ts.validate c).map fun _ => ()) :=
  .forM fun c => (ts.validate_checks c).map

end Templates

theorem Register.getBy_checks (r : Register) (a b : String) (id : NegotiationId) :
    Checks (r.getBy a b id) := by
  unfold getBy
  split
  · exact .ok _
  · exact .error trivial

namespace Negotiation

variable (n : Negotiation) (ctx : UpdateContext) (p : Party) (m : Message)

theorem partyByFingerprint_checks (h : Digest) : Checks (n.partyByFingerprint h) := by
  unfold partyByFingerprint
  split
  · exact .ok _
  · exact .error trivial

theorem counterpartOf_checks : Checks (n.counterpartOf p) :=
  .ite (.ok _) (.ite (.ok _) (.error trivial))

theorem checkTurn_checks (kind : MessageKind) (now : Instant) : Checks (n.checkTurn p kind now) := by
  refine .ite (.error trivial) ?_
  split
  · exact .ite (.ok ()) (.error trivial)
  · exact .ite (.error trivial) (.ite (.error trivial) (.ok ()))
  all_goals exact .error trivial

theorem currentOffer_checks : Checks n.currentOffer := by
  unfold currentOffer
  split
  · exact .ok _
  · exact .error trivial

theorem offerHash_checks (s : Settings) : Checks (n.offerHash s) :=
  n.currentOffer_checks.bind fun _ => .ok _

theorem checkOfferHash_checks (s : Settings) (h : Digest) : Checks (n.checkOfferHash s h) := by
  unfold checkOfferHash
  dsimp only
  refine .guard trivial (n.currentOffer_checks.bind fun last => ?_)
  exact .ite (.error trivial) (.ok ())

theorem checkContent_checks : Checks (n.checkContent ctx m) := by
  cases m with
  | offer o => exact (checkTerms_checks _ _ _ _).bind fun _ => ctx.templates.forM_validate_checks _
  | acceptance x => exact n.checkOfferHash_checks _ _
  | rejection x => exact n.checkOfferHash_checks _ _

theorem checkTimestamp_checks (t : Instant) : Checks (checkTimestamp ctx t) :=
  .ite (.error trivial) (.ok ())

theorem checkInbound_checks : Checks (n.checkInbound ctx p m) :=
  (n.checkTurn_checks p _ _).bind fun _ => (n.checkContent_checks ctx m).bind fun _ =>
    (checkTimestamp_checks ctx _).bind fun _ => p.verify_checks _ _ _

theorem inboundRoute_checks : Checks (n.inboundRoute m) := by
  unfold inboundRoute
  dsimp only
  refine .guard trivial ((n.partyByFingerprint_checks _).bind fun sender => ?_)
  exact (n.partyByFingerprint_checks _).bind fun receiver => .guard trivial (.ok _)

theorem receive_checks : Checks (n.receive ctx m).1 := by
  unfold receive
  split
  next e route =>
    exact .error (n.inboundRoute_checks m e route)
  next sender receiver route =>
    split
    next e failed => exact .error (n.checkInbound_checks ctx sender m e failed)
    next => exact .ok ()

theorem prepare_checks {kind : MessageKind}
    {draft : Party → SignatureScheme → Except Error Message}
    (drafts : ∀ receiver scheme, Checks (draft receiver scheme)) :
    Checks (n.prepare ctx p kind draft).1 := by
  unfold prepare
  dsimp only
  split
  next e outbound =>
    refine .error (Checks.bind (n.counterpartOf_checks p) (fun receiver => ?_) e outbound)
    exact p.ownedKey_checks.bind fun _ => .ok _
  next receiver key outbound =>
    exact (n.checkTurn_checks p kind _).bind fun _ => (drafts receiver key.scheme).bind fun _ => .ok _

theorem prepareFor_checks (ask : Ask) : Checks (n.prepareFor ctx p ask).1 := by
  cases ask with
  | offer validAfter validUntil contracts =>
    refine n.prepare_checks ctx p fun receiver scheme => ?_
    exact (ctx.templates.forM_validate_checks _).bind fun _ =>
      (checkTerms_checks _ _ _ _).bind fun _ => .ok _
  | acceptance =>
    exact n.prepare_checks ctx p fun _ _ => (n.offerHash_checks _).bind fun _ => .ok _
  | rejection =>
    exact n.prepare_checks ctx p fun _ _ => (n.offerHash_checks _).bind fun _ => .ok _

theorem lastRequest_eq_error {ts : Templates} {e : Error} (failed : n.lastRequest ts = .error e) :
    e.Declines ∨ ∃ reason, e = .templateVanished reason := by
  have shows : ∀ c e, showContract ts c = .error e → ∃ reason, e = .templateVanished reason := by
    intro c e failed
    unfold showContract at failed
    split at failed
    · cases failed
    · cases failed
      exact ⟨_, rfl⟩
  unfold lastRequest at failed
  split at failed
  · cases failed
  next o _ =>
    cases sender : n.partyByFingerprint o.offeror with
    | error e' =>
      rw [sender] at failed
      cases failed
      exact .inl (n.partyByFingerprint_checks _ _ sender)
    | ok a =>
      cases receiver : n.partyByFingerprint o.receiver with
      | error e' =>
        rw [sender, receiver] at failed
        cases failed
        exact .inl (n.partyByFingerprint_checks _ _ receiver)
      | ok b =>
        cases shown : o.contracts.mapM (showContract ts) with
        | error e' =>
          rw [sender, receiver, shown] at failed
          cases failed
          exact .inr (mapM_eq_error shows shown)
        | ok contracts =>
          rw [sender, receiver, shown] at failed
          cases failed

end Negotiation

namespace Proxy

theorem contractOf_checks (p : Proxy) (c : RequestedContract) : Checks (p.contractOf c) :=
  (p.templates.byName_checks _).bind fun t => (t.validate_checks _).bind fun _ => .ok _

def requested (p : Proxy) (checked : Instant) (r : OfferRequest) :
    Except Error (Party × Party × List Contract) := do
  r.validate checked
  let offeror ← p.parties.byName .owned r.offerorName
  let receiver ← p.parties.byName .counter r.receiverName
  let contracts ← r.contracts.mapM p.contractOf
  return (offeror, receiver, contracts)

theorem requested_checks (p : Proxy) (checked : Instant) (r : OfferRequest) :
    Checks (p.requested checked r) :=
  (checkTerms_checks _ _ _ _).bind fun _ => (p.parties.byName_checks _ _).bind fun _ =>
    (p.parties.byName_checks _ _).bind fun _ => (Checks.mapM p.contractOf_checks).bind fun _ => .ok _

end Proxy

end Parley
