import Parley.Proofs.Proxy.Refusal

namespace Parley

namespace Negotiation

variable {n n' : Negotiation} {ps : Parties} {templates : Templates} {s : Settings}
variable {ctx : UpdateContext} {m : Message} {a b : Party}

def Unclosed (n : Negotiation) : Prop :=
  n.status = .initial ∨ n.status = .offering → n.closing = []

theorem Takes.opens (takes : n.Takes ps ctx m b) : Opens n.status m.kind := by
  cases takes with
  | inbound received =>
    obtain ⟨-, -, opens, -⟩ := receive_eq_ok received
    exact opens
  | outbound actor ask mem ready =>
    obtain ⟨-, -, turn⟩ := prepareFor_eq_ok ready
    exact opens_of_checkTurn turn

theorem Unclosed.closing_eq_nil (unclosed : n.Unclosed) (takes : n.Takes ps ctx m b) : n.closing = [] :=
  unclosed (takes.opens.imp_left And.left)

theorem Unclosed.apply (unclosed : n.Unclosed) (takes : n.Takes ps ctx m b) :
    (n.apply m b).Unclosed := by
  cases m with
  | offer o => exact fun _ => unclosed.closing_eq_nil takes
  | acceptance x => rintro (⟨⟨⟩⟩ | ⟨⟨⟩⟩)
  | rejection x => rintro (⟨⟨⟩⟩ | ⟨⟨⟩⟩)

/-- What holds of any negotiation of an owned party and a counter-party: it starts without an offer, and
goes on with one. -/
structure Seated (ps : Parties) (n : Negotiation) : Prop where
  owned_mem : n.first ∈ ps.directory.entries
  isOwned : n.first.isOwned = true
  counter_mem : n.second ∈ ps.directory.entries
  isCounter : n.second.isOwned = false
  unopened : n.status = .initial ↔ n.offers = []
  unclosed : n.Unclosed

theorem offers_apply_ne_nil_of_takes (unopened : n.status = .initial ↔ n.offers = [])
    (takes : n.Takes ps ctx m b) : (n.apply m b).offers ≠ [] := by
  obtain ⟨-, opening⟩ | offering := takes.opens
  · cases m with
    | offer o => simp [apply]
    | acceptance x => cases opening
    | rejection x => cases opening
  · have before : n.offers ≠ [] := fun nothing => by
      rw [unopened.2 nothing] at offering
      cases offering
    intro nothing
    exact before (List.prefix_nil.1 (nothing ▸ offers_prefix_apply (n := n) (m := m) (b := b)))

theorem lasts_seated : Proxy.Lasts ps templates s (Seated ps) where
  start id a b owned_mem isOwned counter_mem isCounter :=
    ⟨owned_mem, isOwned, counter_mem, isCounter, iff_of_true rfl rfl, fun _ => rfl⟩
  notice n now seated := by
    unfold notice
    split
    next lapsed =>
      have offering := (hasLapsed_iff.1 lapsed).2.1
      refine { seated with unopened := iff_of_false nofun fun nothing => ?_, unclosed := ?_ }
      · rw [seated.unopened.2 nothing] at offering
        cases offering
      · rintro (⟨⟨⟩⟩ | ⟨⟨⟩⟩)
    · exact seated
  retire n seated := { seated with }
  take n now m b seated takes := by
    have unopened := iff_of_false (status_apply_ne (n := n) (m := m) (b := b))
      (offers_apply_ne_nil_of_takes seated.unopened takes)
    have unclosed := seated.unclosed.apply takes
    obtain ⟨owned_mem, isOwned, counter_mem, isCounter, -, -⟩ := seated
    exact ⟨by simpa using owned_mem, by simpa using isOwned, by simpa using counter_mem,
      by simpa using isCounter, unopened, unclosed⟩

end Negotiation

theorem Error.Hopeless.not_collides {e : Error} (hopeless : e.Hopeless) : ¬ e.Collides := by
  rintro ⟨d, rfl⟩
  obtain ⟨⟨⟩⟩ := hopeless

theorem Outcome.andThen_eq_error {α β : Type} {o : Outcome α} {next : Proxy → α → Outcome β}
    {e : Error} (failed : (o.andThen next).result = .error e) :
    o.result = .error e ∨ ∃ a, o.result = .ok a ∧ (next o.proxy a).result = .error e := by
  unfold andThen at failed
  split at failed
  next e' first =>
    cases failed
    exact .inl first
  next a first => exact .inr ⟨a, first, failed⟩

namespace Register

variable {r r' : Register} {P : Negotiation → Prop} {id : NegotiationId} {a b : Party}

/-- That a register is as it was: the same negotiations are registered, each as it was, and what was
opened since was taken off before anything was committed to it. -/
structure Restored (r r' : Register) : Prop where
  listed_eq : r'.listed = r.listed
  attempts_eq : r'.attempts = r.attempts
  source_eq : r'.source = r.source
  kept : r.negotiations <+: r'.negotiations
  others : ∀ n ∈ r'.negotiations.drop r.negotiations.length, n.retired = true ∧ n.offers = []

theorem Restored.of_drawn (drawn : Nat) : r.Restored { r with drawn } :=
  ⟨rfl, rfl, rfl, List.prefix_rfl, by simp⟩

theorem Restored.registered?_eq (restored : r.Restored r') (sound : r.Sound P) (key : RegisterKey) :
    r'.registered? key = r.registered? key := by
  refine registered?_eq_of_find? ?_
  unfold find?
  rw [restored.listed_eq]
  cases listed : r.listed.lookup key with
  | none => rfl
  | some h =>
    obtain ⟨n, place, -⟩ := sound.listed key h listed
    obtain ⟨later, kept⟩ := restored.kept
    have inside := (List.getElem?_eq_some_iff.1 place).1
    simp [← kept, List.getElem?_append_left inside]

theorem Sound.lookup_eq_none (sound : r.Sound P) {key : RegisterKey}
    (missing : r.registered? key = none) : r.listed.lookup key = none := by
  cases listed : r.listed.lookup key with
  | none => rfl
  | some h =>
    obtain ⟨n, place, -⟩ := sound.listed key h listed
    have found := registered?_of_find? (find?_eq_some_iff.2 ⟨listed, place⟩)
    rw [missing] at found
    cases found

theorem restored_opened (sound : r.Sound P) (holds : P (.start id a b)) (drawn : Nat)
    (missing : r.registered? (Negotiation.start id a b).key = none) :
    r.Restored (({ r with drawn }.insert id a b).2.removeIfPristine r.negotiations.length false).2 := by
  have sound' : { r with drawn }.Sound P := ⟨sound.listed, sound.holds⟩
  have others : ∀ entry ∈ r.listed, entry.1 ≠ (Negotiation.start id a b).key := by
    intro entry mem same
    have unlisted := List.lookup_eq_none_iff.1 (sound.lookup_eq_none missing) entry mem
    simp [same] at unlisted
  have pristine : (Negotiation.start id a b).isPristine = true := rfl
  have found := find?_insert { r with drawn } id a b
  rw [removeIfPristine_eq (sound'.insert holds) found, if_pos pristine]
  refine ⟨?_, rfl, rfl, ?_, ?_⟩
  · have kept := List.filter_eq_self.2 fun entry mem => decide_eq_true (others entry mem)
    exact (List.filter_cons_of_neg (by simp [Negotiation.key, Negotiation.start])).trans kept
  · simp [put, insert]
  · simp [put, insert, Negotiation.start]

end Register

namespace Proxy

variable {p p' p₁ : Proxy} {n n' : Negotiation} {key : RegisterKey} {h : Handle} {m : Message}
variable {b : Party} {call : Call} {result : Except Error Unit} {o : Outcome Unit}

/-- That a negotiation is registered for an owned party and a counter-party only while it has an
offer, and is never taken off then. -/
structure Standing (p : Proxy) : Prop where
  wellFormed : p.parties.directory.WellFormed
  settled : p.Settled (Negotiation.Seated p.parties)
  unretired : ∀ key n, p.register.registered? key = some n → n.retired = false

theorem standing_start {parties : Parties} {templates : Templates} {s : Settings}
    {ids : Nat → NegotiationId} (wf : parties.directory.WellFormed) :
    (start parties templates s ids).Standing where
  wellFormed := wf
  settled := by
    refine ⟨Negotiation.lasts_seated, Register.sound_empty _ _, fun key n found => ?_⟩
    rw [start, Register.registered?_empty] at found
    cases found
  unretired key n found := by
    rw [start, Register.registered?_empty] at found
    cases found

theorem Standing.seated (standing : p.Standing) (found : p.register.registered? key = some n) :
    n.Seated p.parties :=
  standing.settled.register.holds n (Register.mem_of_registered? found)

theorem Standing.offers_ne_nil (standing : p.Standing)
    (found : p.register.registered? key = some n) : n.offers ≠ [] := by
  intro nothing
  have live := standing.settled.live key n found
  have unopened := (standing.seated found).unopened.2 nothing
  simp [Negotiation.isPristine, standing.unretired key n found, unopened, nothing] at live

theorem Ends.standing (ends : Ends p call result p') (standing : p.Standing) : p'.Standing where
  wellFormed := ends.basis.parties_eq ▸ standing.wellFormed
  settled := by
    rw [ends.basis.parties_eq]
    exact ends.settled standing.settled
  unretired key n' found := by
    obtain ⟨-, traceless⟩ | ⟨n, m, b, keeps, -⟩ := ends.leaves standing.settled
    · obtain same | ⟨-, n₀, before, -, after⟩ := traceless.entry key
      · exact standing.unretired key n' (same.symm.trans found)
      · obtain rfl := Option.some.inj (found.symm.trans after)
        exact standing.unretired key n₀ before
    · obtain ⟨-, rfl⟩ | ⟨-, before⟩ := keeps.differs.cases found
      · rw [Negotiation.retired_apply]
        obtain known | ⟨-, new⟩ := keeps.stands
        · exact standing.unretired _ n known
        · rw [new]
          rfl
      · exact standing.unretired key n' before

theorem perform_standing (standing : p.Standing) (call : Call) :
    (p.perform call).proxy.Standing :=
  (perform_ends standing.wellFormed call).standing standing

theorem run_standing (standing : p.Standing) (calls : List Call) : (p.run calls).Standing := by
  induction calls generalizing p with
  | nil => exact standing
  | cons call rest ih => exact ih (perform_standing standing call)

theorem Picks.log_eq (picks : Picks p call p₁ h n) (standing : p.Standing)
    (takes : n.Takes p.parties (p.context call.now) m b) :
    (p₁.put h (n.apply m b)).log n.key = p.log n.key ++ [m] := by
  obtain ⟨sound, found, -⟩ := picks.found standing.settled.register standing.settled.lasts
  have unclosed := (sound.holds_of_find? found).unclosed
  have before : p.log n.key = n.messages := by
    obtain known | ⟨missing, new⟩ := picks.stands standing.settled.register
    · exact log_of_registered? known
    · rw [log, missing, new]
      rfl
  rw [before, ← Negotiation.messages_apply (unclosed.closing_eq_nil takes)]
  exact log_of_registered? (Register.differs_put _ sound found).at_key

def Opens (p : Proxy) (call : Call) : Prop :=
  ∀ key, call.Names p key → p.register.registered? key = none

theorem Picks.restored (picks : Picks p call p₁ h n) (standing : p.Standing) :
    p.register.Restored ((p₁.put h n).discard h).register := by
  rw [put_eq_self picks.get?_eq]
  cases picks with
  | known named found =>
    have live := standing.settled.live _ _ (Register.registered?_of_find? found)
    rw [discard_eq_self (Register.find?_eq_some_iff.1 found).2 live]
    exact .of_drawn p.register.drawn
  | opened drawn owned_mem isOwned counter_mem isCounter missing =>
    exact Register.restored_opened standing.settled.register
      (standing.settled.lasts.start _ owned_mem isOwned counter_mem isCounter) drawn missing

theorem Picks.stays_eq (picks : Picks p call p₁ h n) (opens : p.Opens call)
    (stays : n.Stays call.now n') : n' = n := by
  obtain same | ⟨offering, -⟩ := stays.eq_or_expired
  · exact same
  · cases picks with
    | known named found =>
      have found' := Register.registered?_of_find? found
      rw [opens _ named] at found'
      cases found'
    | opened drawn owned_mem isOwned counter_mem isCounter missing => cases offering

structure Vain (p : Proxy) (o : Outcome Unit) : Prop where
  basis : SameBasis p o.proxy
  register : p.register.Restored o.proxy.register
  bank_eq : o.proxy.bank = p.bank
  sent : o.sent = []
  events : o.events = []

theorem settle_eq_error {e : Error} (failed : (p.settle h n m).result = .error e) :
    e.Collides ∨ n.lastRequest p.templates = .error e := by
  obtain ⟨e', unstored, settled⟩ | ⟨_, bank, -, (⟨e', hidden, settled⟩ | ⟨offer, -, settled⟩)⟩ :=
    p.settle_cases h n m
  · rw [settled] at failed
    cases failed
    exact .inl (Bank.store_eq_error unstored)
  · rw [settled] at failed
    cases failed
    exact .inr hidden
  · rw [settled] at failed
    cases failed

theorem Picks.mem_put (picks : Picks p call p₁ h n) (n' : Negotiation) :
    n' ∈ (p₁.register.put h n').negotiations :=
  List.mem_set (List.getElem?_eq_some_iff.1 picks.get?_eq).1 n'

def Failing (p : Proxy) (q : Proxy) (e : Error) : Prop :=
  e.Collides ∨ ∃ n ∈ q.register.negotiations, n.lastRequest p.templates = .error e

theorem Picks.failing {e : Error} {q : Proxy} (picks : Picks p call p₁ h n)
    (same : q.register = p₁.register.put h n') (failed : (p₁.settle h n' m).result = .error e) :
    p.Failing q e := by
  refine (settle_eq_error failed).imp_right fun hidden => ⟨n', ?_, picks.basis.templates_eq ▸ hidden⟩
  rw [same]
  exact picks.mem_put n'

theorem Picks.failing_taken {e : Error} {relay : Relay} {whom : Party} (picks : Picks p call p₁ h n)
    (failed : ((p₁.settle h n' m).andThen fun q () =>
      q.resolveReferences relay m whom).result = .error e) :
    p.Failing ((p₁.settle h n' m).andThen fun q () => q.resolveReferences relay m whom).proxy e := by
  obtain failed | ⟨_, -, failed⟩ := Outcome.andThen_eq_error failed
  · exact picks.failing settle_resolve_eq.2.1 failed
  · exact .inl ((resolve_fetches relay whom _ _ _ _).2.2 e failed)

theorem Performs.error_cases {e : Error} (performs : Performs p call o) (standing : p.Standing)
    (failed : o.result = .error e) :
    e.Hopeless ∨ (∃ cause, e = .relay cause ∧ Vain p o) ∨ p.Failing o.proxy e := by
  cases performs with
  | idle drawn hopeless =>
    cases failed
    exact .inl hopeless
  | refused picks declines refuses =>
    cases failed
    exact .inl (.declines declines)
  | @undelivered relay order p₁ p₂ h n cause picks left =>
    cases failed
    refine .inr (.inl ⟨cause, rfl, ?_⟩)
    obtain rfl | rfl := left
    · exact ⟨.refl, .of_drawn p₂.register.drawn, rfl, rfl, rfl⟩
    · have basis := picks.basis
      exact ⟨⟨basis.parties_eq, basis.templates_eq, basis.settings_eq⟩, picks.restored standing,
        picks.bank_eq, rfl, rfl⟩
  | sent ask picks mem ready => exact .inr (.inr (picks.failing settle_eq.2.1 failed))
  | taken whom picks received => exact .inr (.inr (picks.failing_taken failed))

theorem Performs.vain_of_relay {cause : RelayError} (performs : Performs p call o)
    (standing : p.Standing) (failed : o.result = .error (.relay cause)) : Vain p o := by
  obtain ⟨⟨⟩⟩ | ⟨_, -, vain⟩ | ⟨d, ⟨⟩⟩ | ⟨n, -, hidden⟩ := performs.error_cases standing failed
  · contradiction
  · exact vain
  · obtain ⟨⟨⟩⟩ | ⟨reason, ⟨⟩⟩ := n.lastRequest_eq_error hidden

theorem log_eq_of_register {q : Proxy} (same : q.register = p.register) (key : RegisterKey) :
    q.log key = p.log key := by
  simp only [log, same]

/-- That an operation opened a negotiation under a key and committed an offer to it. -/
structure Begins (p : Proxy) (call : Call) (p' : Proxy) (key : RegisterKey) (m : Message) : Prop where
  concerns : call.Concerns p key
  said : call.Says m
  isOffer : m.kind = .offer
  missing : p.register.registered? key = none
  log_eq : p'.log key = [m]
  elsewhere : ∀ k, k ≠ key → p'.register.registered? k = p.register.registered? k

theorem Picks.begins (picks : Picks p call p₁ h n) (standing : p.Standing) (opens : p.Opens call)
    (said : call.Says m) (takes : n.Takes p.parties (p.context call.now) m b)
    (same : p'.register = p₁.register.put h (n.apply m b)) : p.Begins call p' n.key m := by
  have grown := (log_eq_of_register same _).trans (picks.log_eq standing takes)
  have elsewhere := (picks.differs standing.settled same).elsewhere
  cases picks with
  | known named found =>
    have found' := Register.registered?_of_find? found
    rw [opens _ named] at found'
    cases found'
  | opened drawn owned_mem isOwned counter_mem isCounter missing concerns =>
    have isOffer : m.kind = .offer := by
      obtain ⟨-, isOffer⟩ | ⟨⟨⟩⟩ := takes.opens
      exact isOffer
    refine ⟨concerns, said, isOffer, missing, ?_, elsewhere⟩
    rw [grown, log, missing]
    rfl

theorem Performs.opening (performs : Performs p call o) (standing : p.Standing)
    (opens : p.Opens call) :
    (∃ key m, p.Begins call o.proxy key m ∧ ∀ e, o.result = .error e → p.Failing o.proxy e) ∨
      (∃ e, o.result = .error e ∧ ¬ e.Collides) ∧ p.register.Restored o.proxy.register := by
  cases performs with
  | @idle _ e drawn hopeless => exact .inr ⟨⟨e, rfl, hopeless.not_collides⟩, .of_drawn drawn⟩
  | @refused _ p₁ h n n' e picks declines refuses =>
    obtain rfl := picks.stays_eq opens refuses.stays
    exact .inr ⟨⟨e, rfl, (Error.Hopeless.declines declines).not_collides⟩, picks.restored standing⟩
  | undelivered cause picks left =>
    refine .inr ⟨⟨_, rfl, nofun⟩, ?_⟩
    obtain rfl | rfl := left
    · exact .of_drawn _
    · exact picks.restored standing
  | sent ask picks mem ready =>
    exact .inl ⟨_, _, picks.begins standing opens trivial (.outbound _ ask mem ready) settle_eq.2.1,
      fun e failed => picks.failing settle_eq.2.1 failed⟩
  | taken whom picks received =>
    exact .inl ⟨_, _, picks.begins standing opens rfl (.inbound received) settle_resolve_eq.2.1,
      fun e failed => picks.failing_taken failed⟩

theorem Steady.collides {q : Proxy} {e : Error} (steady : q.Steady)
    (templates_eq : q.templates = p.templates) (failing : p.Failing q e) : e.Collides := by
  refine failing.resolve_right fun ⟨n, mem, hidden⟩ => ?_
  obtain ⟨offer, shown⟩ := (steady.register.holds n mem).shown
  rw [templates_eq, hidden] at shown
  cases shown

/-- Whatever was asked of a proxy that started with nothing registered: every key leads to a
negotiation of its two parties and its id that was not taken off and has an offer. What could only
open a negotiation commits its offer, as the only message under a key that was free, or fails and leaves
the register as it was; it fails after the commit only if a digest turns out to stand for two
definitions, or if a party was built under settings that accept no digest. What is not delivered leaves
the register as it was. -/
theorem registered_stand {parties : List Party} {ps : Parties} {held : Settings}
    (made : Parties.ofList parties held = .ok ps) (templates : Templates) (s : Settings)
    (ids : Nat → NegotiationId) (calls : List Call) :
    let p := (start ps templates s ids).run calls
    (∀ key h, p.register.listed.lookup key = some h → ∃ n, p.register.get? h = some n ∧
      n.key = key ∧ n.retired = false ∧ n.offers ≠ []) ∧
    (∀ call, p.Opens call →
      (∃ key m, p.Begins call (p.perform call).proxy key m ∧
        ∀ e, (p.perform call).result = .error e →
          e.Collides ∨ ∃ a ∈ ps.directory.entries, a.preferredFingerprint ∉ a.fingerprints) ∨
        (∃ e, (p.perform call).result = .error e ∧ ¬ e.Collides) ∧
          p.register.Restored (p.perform call).proxy.register) ∧
    ∀ call cause, (p.perform call).result = .error (.relay cause) →
      p.register.Restored (p.perform call).proxy.register := by
  intro p
  have wf := (Parties.ofList_eq_ok made).2.2
  have standing : p.Standing := run_standing (standing_start wf) calls
  refine ⟨fun key h listed => ?_, fun call opens => ?_, fun call cause failed => ?_⟩
  · obtain ⟨n, place, key_eq⟩ := standing.settled.register.listed key h listed
    have found := Register.registered?_of_find? (Register.find?_eq_some_iff.2 ⟨listed, place⟩)
    exact ⟨n, place, key_eq, standing.unretired key n found, standing.offers_ne_nil found⟩
  · refine ((perform_performs standing.wellFormed call).opening standing opens).imp_left ?_
    rintro ⟨key, m, begins, failing⟩
    refine ⟨key, m, begins, fun e failed => or_iff_not_imp_right.2 fun unnamed => ?_⟩
    have named : ∀ a ∈ ps.directory.entries, a.preferredFingerprint ∈ a.fingerprints :=
      fun a mem => Decidable.byContradiction fun other => unnamed ⟨a, mem, other⟩
    have steady : p.Steady := run_steady (steady_start wf named) calls
    have ends := perform_ends steady.wellFormed call
    exact (ends.steady steady).collides ends.basis.templates_eq (failing e failed)
  · exact ((perform_performs standing.wellFormed call).vain_of_relay standing failed).register

end Proxy

namespace Sample

theorem offered_stands :
    Parties.ofList [owned "Buyer" buyerSeed, counter "Seller" sellerSeed] settings = .ok parties ∧
    ∃ h n, (offered 7).register.listed.lookup (pending 7).key = some h ∧
      (offered 7).register.get? h = some n ∧ n.key = (pending 7).key ∧ n.retired = false ∧
      n.offers ≠ [] := by
  obtain ⟨h, found⟩ := Register.registered?_eq_some (offered_known 7)
  have listed := (Register.find?_eq_some_iff.1 found).1
  generalize (pending 7).key = key at listed ⊢
  have stand := Proxy.registered_stand parties_ofList templates settings (fun i => .ofNat i)
    [.message relay now (offer 7).message]
  rw [← proxy, ← offered] at stand
  obtain ⟨n, stands⟩ := stand.1 key h listed
  exact ⟨parties_ofList, h, n, listed, stands⟩

end Sample

end Parley
