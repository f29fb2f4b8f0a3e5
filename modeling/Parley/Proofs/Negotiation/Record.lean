import Parley.Proofs.Negotiation.Exchange

namespace Parley

def Message.offerHash? : Message → Option Digest
  | .offer _ => none
  | .acceptance m => some m.offerHash
  | .rejection m => some m.offerHash

namespace Negotiation

variable {n n' : Negotiation} {s : Settings} {ctx : UpdateContext} {m : Message} {now : Instant}
variable {a b p q : Party}

def closing (n : Negotiation) : List Message :=
  n.acceptance.toList.map .acceptance ++ n.rejection.toList.map .rejection

def messages (n : Negotiation) : List Message :=
  n.offers.map .offer ++ n.closing

theorem closing_eq_nil_iff : n.closing = [] ↔ n.acceptance = none ∧ n.rejection = none := by
  simp [closing]

theorem closing_eq_acceptance_iff {m : Acceptance} :
    n.closing = [.acceptance m] ↔ n.acceptance = some m ∧ n.rejection = none := by
  unfold closing
  cases n.acceptance <;> cases n.rejection <;> simp

theorem closing_eq_rejection_iff {m : Rejection} :
    n.closing = [.rejection m] ↔ n.acceptance = none ∧ n.rejection = some m := by
  unfold closing
  cases n.acceptance <;> cases n.rejection <;> simp

theorem messages_apply (open_ : n.closing = []) : (n.apply m b).messages = n.messages ++ [m] := by
  obtain ⟨acceptance, rejection⟩ := closing_eq_nil_iff.1 open_
  cases m with
  | offer o => simp [messages, closing, Negotiation.apply, acceptance, rejection]
  | acceptance o => simp [messages, closing, Negotiation.apply, acceptance, rejection]
  | rejection o => simp [messages, closing, Negotiation.apply, acceptance, rejection]

/-- A message from one party to the other, signed by the one. -/
structure Travels (s : Settings) (sender receiver : Party) (m : Message) : Prop where
  sender_mem : m.sender ∈ sender.fingerprints
  receiver_mem : m.receiver ∈ receiver.fingerprints
  verified : sender.verify m.signingBytes m.signature s = .ok ()

theorem Admits.travels (admits : n.Admits ctx a b m) : Travels ctx.settings a b m :=
  ⟨admits.sender_mem, admits.receiver_mem, admits.verified⟩

/-- A message that answers the last offer: it names that offer, and goes back from the party the
offer was made to, to the one that made it. -/
structure Answers (s : Settings) (n : Negotiation) (m : Message) (last : Offer) (h : Digest)
    (closer offeror : Party) : Prop where
  joins : n.Joins closer offeror
  last_eq : n.lastOffer? = some last
  hash_eq : m.offerHash? = some h
  accepted : h.algorithm ∈ s.accepted
  verifies : h.verifies (Message.offer last).canonicalBytes = true
  sender_mem : m.sender ∈ closer.fingerprints
  addressed : last.receiver ∈ closer.fingerprints
  receiver_mem : m.receiver ∈ offeror.fingerprints
  offered : last.offeror ∈ offeror.fingerprints

structure Recorded (s : Settings) (n : Negotiation) : Prop where
  initial : n.status = .initial → n.messages = []
  opened : n.status ≠ .initial → n.offers ≠ []
  ongoing : n.status = .offering ∨ n.status = .expired → n.closing = []
  accepted : n.status = .accepted → ∃ m, n.closing = [.acceptance m]
  rejected : n.status = .rejected → ∃ m, n.closing = [.rejection m]
  turn : ∀ last, n.lastOffer? = some last → n.closing = [] → ∃ offeror receiver,
    n.Joins offeror receiver ∧ last.offeror ∈ offeror.fingerprints ∧
      last.receiver ∈ receiver.fingerprints ∧ n.active = some receiver.name
  answered : ∀ m ∈ n.closing, ∃ last h closer offeror, n.Answers s m last h closer offeror
  signed : ∀ m ∈ n.messages, m.id = n.id ∧ ∃ a b, n.Joins a b ∧ Travels s a b m

theorem recorded_start (id : NegotiationId) : Recorded s (start id a b) where
  initial _ := rfl
  opened h := absurd rfl h
  ongoing _ := rfl
  accepted h := by cases h
  rejected h := by cases h
  turn last h := by simp [lastOffer?, start] at h
  answered m h := by cases h
  signed m h := by cases h

theorem Answers.congr {last : Offer} {h : Digest} (answers : n.Answers s m last h a b)
    (first_eq : n'.first = n.first) (second_eq : n'.second = n.second)
    (last_eq : n'.lastOffer? = n.lastOffer?) : n'.Answers s m last h a b where
  joins := by
    unfold Joins
    rw [first_eq, second_eq]
    exact answers.joins
  last_eq := last_eq.trans answers.last_eq
  hash_eq := answers.hash_eq
  accepted := answers.accepted
  verifies := answers.verifies
  sender_mem := answers.sender_mem
  addressed := answers.addressed
  receiver_mem := answers.receiver_mem
  offered := answers.offered

theorem Recorded.withStatus {status : NegotiationStatus} {retired : Bool} (recorded : Recorded s n)
    (change : status = n.status ∨ n.status = .offering ∧ status = .expired) :
    Recorded s { n with status, retired } where
  initial h := by
    obtain same | ⟨-, expired⟩ := change
    · exact recorded.initial (same.symm.trans h)
    · cases expired.symm.trans h
  opened h := by
    obtain same | ⟨offering, -⟩ := change
    · exact recorded.opened fun initial => h (same.trans initial)
    · exact recorded.opened fun initial => by cases offering.symm.trans initial
  ongoing h := by
    obtain same | ⟨offering, -⟩ := change
    · exact recorded.ongoing (h.imp same.symm.trans same.symm.trans)
    · exact recorded.ongoing (.inl offering)
  accepted h := by
    obtain same | ⟨-, expired⟩ := change
    · exact recorded.accepted (same.symm.trans h)
    · cases expired.symm.trans h
  rejected h := by
    obtain same | ⟨-, expired⟩ := change
    · exact recorded.rejected (same.symm.trans h)
    · cases expired.symm.trans h
  turn := recorded.turn
  answered m mem := by
    obtain ⟨last, h, closer, offeror, answers⟩ := recorded.answered m mem
    exact ⟨last, h, closer, offeror, answers.congr rfl rfl rfl⟩
  signed := recorded.signed

theorem Recorded.notice (recorded : Recorded s n) (now : Instant) : Recorded s (n.notice now) := by
  unfold Negotiation.notice
  split
  next lapsed =>
    have offering : n.status = .offering := by
      simp only [hasLapsed, Bool.and_eq_true, beq_iff_eq] at lapsed
      exact lapsed.1.2
    exact recorded.withStatus (.inr ⟨offering, rfl⟩)
  · exact recorded

theorem Recorded.retire (recorded : Recorded s n) : Recorded s { n with retired := true } :=
  recorded.withStatus (.inl rfl)

theorem Recorded.stays (recorded : Recorded s n) (stays : n.Stays now n') : Recorded s n' := by
  obtain rfl | rfl := stays
  · exact recorded
  · exact recorded.notice now

theorem Recorded.closing_eq_nil {kind : MessageKind} (recorded : Recorded s n)
    (turn : n.checkTurn a kind now = .ok ()) : n.closing = [] := by
  obtain ⟨-, ⟨initial, -⟩ | ⟨offering, -, -⟩⟩ := checkTurn_eq_ok_iff.1 turn
  · exact (List.append_eq_nil_iff.1 (recorded.initial initial)).2
  · exact recorded.ongoing (.inl offering)

theorem lastOffer?_append (o : Offer) : (n.apply (.offer o) b).lastOffer? = some o := by
  simp [lastOffer?, Negotiation.apply]

theorem Joins.apply (joins : n.Joins a b) : (n.apply m p).Joins a b := by
  unfold Joins
  rw [first_apply, second_apply]
  exact joins

theorem Joins.eq_of_name (joins : n.Joins a b) (other : n.Joins p q) (names : a.name ≠ b.name)
    (same : q.name = a.name) : q = a ∧ p = b := by
  obtain ⟨rfl, rfl⟩ | ⟨rfl, rfl⟩ := joins <;> obtain ⟨rfl, rfl⟩ | ⟨rfl, rfl⟩ := other
  · exact absurd same.symm names
  · exact ⟨rfl, rfl⟩
  · exact ⟨rfl, rfl⟩
  · exact absurd same.symm names

theorem Recorded.addressed {kind : MessageKind} {last : Offer} (recorded : Recorded s n)
    (joins : n.Joins a b) (names : a.name ≠ b.name) (turn : n.checkTurn a kind now = .ok ())
    (last_eq : n.lastOffer? = some last) :
    last.receiver ∈ a.fingerprints ∧ last.offeror ∈ b.fingerprints := by
  obtain ⟨offeror, receiver, last_joins, offered, addressed, active⟩ :=
    recorded.turn last last_eq (recorded.closing_eq_nil turn)
  have active' : n.active = some a.name := by
    obtain ⟨-, ⟨initial, -⟩ | ⟨-, -, active'⟩⟩ := checkTurn_eq_ok_iff.1 turn
    · have nothing := (List.append_eq_nil_iff.1 (recorded.initial initial)).1
      simp [lastOffer?, List.map_eq_nil_iff.1 nothing] at last_eq
    · exact active'
  obtain ⟨rfl, rfl⟩ := joins.eq_of_name last_joins names
    (Option.some.inj (active.symm.trans active'))
  exact ⟨addressed, offered⟩

theorem Recorded.answers {h : Digest} (recorded : Recorded ctx.settings n) (joins : n.Joins a b)
    (names : a.name ≠ b.name) (admits : n.Admits ctx a b m) (hash_eq : m.offerHash? = some h)
    (named : n.checkOfferHash ctx.settings h = .ok ()) :
    ∃ last, n.Answers ctx.settings m last h a b := by
  obtain ⟨accepted, last, last_eq, verifies⟩ := checkOfferHash_eq_ok_iff.1 named
  obtain ⟨addressed, offered⟩ := recorded.addressed joins names admits.turn last_eq
  exact ⟨last, joins, last_eq, hash_eq, accepted, verifies, admits.sender_mem, addressed,
    admits.receiver_mem, offered⟩

theorem Recorded.signed_apply (recorded : Recorded ctx.settings n) (joins : n.Joins a b)
    (admits : n.Admits ctx a b m) : ∀ m' ∈ (n.apply m b).messages, m'.id = (n.apply m b).id ∧
      ∃ x y, (n.apply m b).Joins x y ∧ Travels ctx.settings x y m' := by
  have id_eq : (n.apply m b).id = n.id := by cases m <;> rfl
  intro m' mem
  rw [messages_apply (recorded.closing_eq_nil admits.turn), List.mem_append,
    List.mem_singleton] at mem
  rw [id_eq]
  obtain before | rfl := mem
  · obtain ⟨same, x, y, joins', travels⟩ := recorded.signed m' before
    exact ⟨same, x, y, joins'.apply, travels⟩
  · exact ⟨admits.id_eq, a, b, joins.apply, admits.travels⟩

theorem Recorded.apply_closing {h : Digest} (recorded : Recorded ctx.settings n)
    (joins : n.Joins a b) (names : a.name ≠ b.name) (admits : n.Admits ctx a b m)
    (hash_eq : m.offerHash? = some h) (named : n.checkOfferHash ctx.settings h = .ok ()) :
    Recorded ctx.settings (n.apply m b) := by
  obtain ⟨last, answers⟩ := recorded.answers joins names admits hash_eq named
  have some_offers : n.offers ≠ [] := by
    intro nothing
    have := answers.last_eq
    simp [lastOffer?, nothing] at this
  obtain ⟨acceptance, rejection⟩ := closing_eq_nil_iff.1 (recorded.closing_eq_nil admits.turn)
  have signed := recorded.signed_apply joins admits
  have answers' : (n.apply m b).Answers ctx.settings m last h a b := by
    refine answers.congr first_apply second_apply ?_
    cases m with
    | offer o => cases hash_eq
    | acceptance x => rfl
    | rejection x => rfl
  have closing_eq : (n.apply m b).closing = [m] := by
    cases m with
    | offer o => cases hash_eq
    | acceptance x => simp [closing, Negotiation.apply, rejection]
    | rejection x => simp [closing, Negotiation.apply, acceptance]
  have answered : ∀ m' ∈ (n.apply m b).closing, ∃ last h closer offeror,
      (n.apply m b).Answers ctx.settings m' last h closer offeror := by
    rw [closing_eq]
    intro m' mem
    rw [List.mem_singleton] at mem
    subst mem
    exact ⟨last, h, a, b, answers'⟩
  have closed : (n.apply m b).closing ≠ [] := by simp [closing_eq]
  cases m with
  | offer o => cases hash_eq
  | acceptance x => exact {
      initial := by rintro ⟨⟩
      opened := fun _ => some_offers
      ongoing := by rintro (⟨⟨⟩⟩ | ⟨⟨⟩⟩)
      accepted := fun _ => ⟨x, closing_eq⟩
      rejected := by rintro ⟨⟩
      turn := fun _ _ open_ => absurd open_ closed
      answered, signed }
  | rejection x => exact {
      initial := by rintro ⟨⟩
      opened := fun _ => some_offers
      ongoing := by rintro (⟨⟨⟩⟩ | ⟨⟨⟩⟩)
      accepted := by rintro ⟨⟩
      rejected := fun _ => ⟨x, closing_eq⟩
      turn := fun _ _ open_ => absurd open_ closed
      answered, signed }

theorem Recorded.apply (recorded : Recorded ctx.settings n) (joins : n.Joins a b)
    (names : a.name ≠ b.name) (admits : n.Admits ctx a b m) :
    Recorded ctx.settings (n.apply m b) := by
  cases m with
  | offer o =>
    have open_ : n.closing = [] := recorded.closing_eq_nil admits.turn
    exact {
      initial := by rintro ⟨⟩
      opened := fun _ => by simp [Negotiation.apply]
      ongoing := fun _ => open_
      accepted := by rintro ⟨⟩
      rejected := by rintro ⟨⟩
      turn := by
        intro last last_eq _
        rw [lastOffer?_append] at last_eq
        cases last_eq
        exact ⟨a, b, joins.apply, admits.sender_mem, admits.receiver_mem, rfl⟩
      answered := by
        intro m mem
        change m ∈ n.closing at mem
        rw [open_] at mem
        cases mem
      signed := recorded.signed_apply joins admits }
  | acceptance x => exact recorded.apply_closing joins names admits rfl admits.content
  | rejection x => exact recorded.apply_closing joins names admits rfl admits.content

end Negotiation

end Parley
