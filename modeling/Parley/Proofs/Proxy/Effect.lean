import Parley.Proofs.Bank
import Parley.Proofs.Checks
import Parley.Proofs.Negotiation.Record
import Parley.Proofs.Negotiation.Register
import Parley.Proxy

namespace Parley

def Error.Collides (e : Error) : Prop :=
  ∃ h, e = .hashCollision h

/-- Parties as settings hold them, none to be mistaken for another. -/
structure Parties.Sound (ps : Parties) (s : Settings) : Prop where
  wellFormed : ps.directory.WellFormed
  accepted_eq : ps.accepted = s.accepted
  built : ∀ p ∈ ps.directory.entries, p.Built s

theorem Parties.sound_ofList {parties : List Party} {ps : Parties} {s : Settings}
    (built : ∀ p ∈ parties, p.Built s) (made : ofList parties s = .ok ps) : ps.Sound s := by
  obtain ⟨entries_eq, accepted_eq, wellFormed⟩ := ofList_eq_ok made
  exact ⟨wellFormed, accepted_eq, fun p mem => built p (entries_eq ▸ mem)⟩

/-- A negotiation as a proxy holds it: between one of its owned parties and a counter-party, with
its record in order. -/
structure Negotiation.Held (ps : Parties) (s : Settings) (n : Negotiation) : Prop where
  owned_mem : n.first ∈ ps.directory.entries
  counter_mem : n.second ∈ ps.directory.entries
  isOwned : n.first.isOwned = true
  isCounter : n.second.isOwned = false
  recorded : n.Recorded s

namespace Negotiation

variable {n n' : Negotiation} {ps : Parties} {s : Settings} {ctx : UpdateContext} {m : Message}
variable {a b p q : Party} {now : Instant}

theorem Held.sides (held : n.Held ps s) (sound : ps.Sound s) : n.Sides s n.first n.second where
  joins := .inl ⟨rfl, rfl⟩
  owned_built := sound.built _ held.owned_mem
  counter_built := sound.built _ held.counter_mem
  isOwned := held.isOwned
  isCounter := held.isCounter
  apart := by
    refine List.Pairwise.forall sound.wellFormed held.owned_mem held.counter_mem fun same => ?_
    have owned := held.isOwned
    rw [same, held.isCounter] at owned
    cases owned

theorem held_start {id : NegotiationId} (owned_mem : a ∈ ps.directory.entries)
    (counter_mem : b ∈ ps.directory.entries) (isOwned : a.isOwned = true)
    (isCounter : b.isOwned = false) : (start id a b).Held ps s :=
  ⟨owned_mem, counter_mem, isOwned, isCounter, recorded_start id⟩

theorem Held.stays (held : n.Held ps s) (stays : n.Stays now n') : n'.Held ps s := by
  have recorded := held.recorded.stays stays
  obtain ⟨status, rfl⟩ := stays.eq_withStatus
  exact ⟨held.owned_mem, held.counter_mem, held.isOwned, held.isCounter, recorded⟩

theorem Held.retire (held : n.Held ps s) : { n with retired := true }.Held ps s :=
  ⟨held.owned_mem, held.counter_mem, held.isOwned, held.isCounter, held.recorded.retire⟩

theorem Held.apply (held : n.Held ps ctx.settings) (joins : n.Joins a b) (names : a.name ≠ b.name)
    (admits : n.Admits ctx a b m) : (n.apply m b).Held ps ctx.settings where
  owned_mem := by simpa using held.owned_mem
  counter_mem := by simpa using held.counter_mem
  isOwned := by simpa using held.isOwned
  isCounter := by simpa using held.isCounter
  recorded := held.recorded.apply joins names admits

theorem offers_apply_ne_nil (recorded : n.Recorded ctx.settings) (joins : n.Joins a b)
    (names : a.name ≠ b.name) (admits : n.Admits ctx a b m) : (n.apply m b).offers ≠ [] := by
  refine (recorded.apply joins names admits).opened ?_
  cases m <;> rintro ⟨⟩

theorem Held.parties_eq (held : n.Held ps s) (sound : ps.Sound s)
    (owned_mem : a ∈ ps.directory.entries) (counter_mem : b ∈ ps.directory.entries)
    (isCounter : b.isOwned = false) (pair_eq : n.pair = .of a.name b.name) : n.first = a ∧ n.second = b := by
  obtain ⟨first, second⟩ | ⟨first, second⟩ := PartyPair.of_eq_of_iff.1 pair_eq
  · exact ⟨sound.wellFormed.eq_of_name held.owned_mem owned_mem first,
      sound.wellFormed.eq_of_name held.counter_mem counter_mem second⟩
  · have same := sound.wellFormed.eq_of_name held.owned_mem counter_mem first
    have owned := held.isOwned
    rw [same, isCounter] at owned
    cases owned

end Negotiation

namespace Proxy

variable {p p' p₁ : Proxy} {n n' : Negotiation} {key : RegisterKey} {h : Handle} {now : Instant}
variable {m : Message} {a b : Party} {relay : Relay}

structure Sound (p : Proxy) : Prop where
  parties : p.parties.Sound p.settings
  register : p.register.Sound (Negotiation.Held p.parties p.settings)
  standing : ∀ key n, p.register.registered? key = some n → n.retired = false ∧ n.offers ≠ []

theorem sound_start {parties : Parties} {templates : Templates} {settings : Settings}
    {ids : Nat → NegotiationId} (sound : parties.Sound settings) :
    (start parties templates settings ids).Sound where
  parties := sound
  register := Register.sound_empty _ _
  standing key n found := by
    rw [start, Register.registered?_empty] at found
    cases found

structure SameBasis (p p' : Proxy) : Prop where
  parties_eq : p'.parties = p.parties
  templates_eq : p'.templates = p.templates
  settings_eq : p'.settings = p.settings

theorem SameBasis.refl : SameBasis p p :=
  ⟨rfl, rfl, rfl⟩

theorem SameBasis.trans (first : SameBasis p p₁) (second : SameBasis p₁ p') : SameBasis p p' :=
  ⟨second.parties_eq.trans first.parties_eq, second.templates_eq.trans first.templates_eq,
    second.settings_eq.trans first.settings_eq⟩

theorem SameBasis.context_eq (same : SameBasis p p') : p'.context now = p.context now := by
  simp only [context, same.templates_eq, same.settings_eq]

structure Rests (p p' : Proxy) (now : Instant) : Prop where
  basis : SameBasis p p'
  sound : p'.Sound
  entry : ∀ key, p'.register.registered? key = p.register.registered? key ∨
    ∃ n, p.register.registered? key = some n ∧ p'.register.registered? key = some (n.notice now)

/-- The negotiation an operation works on: the one registered under its key, or else a new one. -/
def Stands (p : Proxy) (n : Negotiation) : Prop :=
  p.register.registered? n.key = some n ∨
    p.register.registered? n.key = none ∧ n = .start n.id n.first n.second

/-- That an operation committed a message from one party of a negotiation to the other, and did
nothing else. If the negotiation is new, it was registered. -/
structure Commits (p p' : Proxy) (now : Instant) (n : Negotiation) (sender receiver : Party)
    (m : Message) : Prop where
  basis : SameBasis p p'
  sound : p'.Sound
  stands : p.Stands n
  held : n.Held p.parties p.settings
  joins : n.Joins sender receiver
  admits : n.Admits (p.context now) sender receiver m
  differs : p.register.Differs p'.register n.key (some (n.apply m receiver))
  opens : p.register.registered? n.key = none →
    n.key ∈ p'.register.keys.drop p.register.keys.length

/-- A proxy in the middle of an operation, which has found or opened a negotiation. -/
structure Located (p p₁ : Proxy) (h : Handle) (n : Negotiation) : Prop where
  basis : SameBasis p p₁
  sound : p₁.register.Sound (Negotiation.Held p.parties p.settings)
  found : p₁.register.find? n.key = some (h, n)
  elsewhere : ∀ k, k ≠ n.key → p₁.register.registered? k = p.register.registered? k
  stands : p.Stands n
  opens : p.register.registered? n.key = none → p₁.register.keys = p.register.keys ++ [n.key]

theorem Located.held (located : Located p p₁ h n) : n.Held p.parties p.settings :=
  located.sound.holds_of_find? located.found

theorem located_of_find? (sound : p.Sound) (found : p.register.find? key = some (h, n)) :
    Located p p h n where
  basis := .refl
  sound := sound.register
  found := by
    rw [sound.register.key_eq found]
    exact found
  elsewhere _ _ := rfl
  stands := by
    refine .inl ?_
    rw [sound.register.key_eq found]
    exact Register.registered?_of_find? found
  opens missing := by
    rw [sound.register.key_eq found, Register.registered?_of_find? found] at missing
    cases missing

theorem located_insert (drawn : Nat) {id : NegotiationId} (sound : p.Sound)
    (owned_mem : a ∈ p.parties.directory.entries) (counter_mem : b ∈ p.parties.directory.entries)
    (isOwned : a.isOwned = true) (isCounter : b.isOwned = false)
    (missing : p.register.registered? (Negotiation.start id a b).key = none) :
    Located p { p with register := ({ p.register with drawn }.insert id a b).2 }
      p.register.negotiations.length (.start id a b) := by
  have sound' : { p.register with drawn }.Sound (Negotiation.Held p.parties p.settings) :=
    ⟨sound.register.listed, sound.register.holds⟩
  have held : (Negotiation.start id a b).Held p.parties p.settings :=
    Negotiation.held_start owned_mem counter_mem isOwned isCounter
  exact {
    basis := ⟨rfl, rfl, rfl⟩
    sound := sound'.insert held
    found := Register.find?_insert _ _ _ _
    elsewhere := (Register.differs_insert sound').elsewhere
    stands := .inr ⟨missing, rfl⟩
    opens := fun _ => Register.keys_insert }

theorem Located.parties_sound (located : Located p p₁ h n) (sound : p.Sound) :
    p₁.parties.Sound p₁.settings := by
  rw [located.basis.parties_eq, located.basis.settings_eq]
  exact sound.parties

theorem Located.rests (located : Located p p₁ h n) (sound : p.Sound) (stays : n.Stays now n') :
    Rests p ((p₁.put h n').discard h) now := by
  have held' : n'.Held p.parties p.settings := located.held.stays stays
  have key_eq : n'.key = n.key := by
    obtain ⟨status, rfl⟩ := stays.eq_withStatus
    rfl
  obtain ⟨register_sound, differs, -⟩ :=
    located.sound.putBack located.found key_eq held' held'.retire
  -- what stood under the key stands there again
  have entry : ∀ key, ((p₁.put h n').discard h).register.registered? key = p.register.registered? key ∨
      ∃ n, p.register.registered? key = some n ∧
        ((p₁.put h n').discard h).register.registered? key = some (n.notice now) := by
    intro key
    by_cases here : key = n.key
    · subst here
      have after : ((p₁.put h n').discard h).register.registered? n.key =
          if n'.isPristine then none else some n' := differs.at_key
      rw [after]
      obtain before | ⟨missing, new⟩ := located.stands
      · have live : n'.isPristine = false := by
          have opened := (sound.standing n.key n before).2
          obtain ⟨status, rfl⟩ := stays.eq_withStatus
          simp [Negotiation.isPristine, opened]
        rw [live, before]
        obtain rfl | rfl := stays
        · exact .inl rfl
        · exact .inr ⟨n, rfl, rfl⟩
      · have start : n' = n := by
          obtain rfl | rfl := stays
          · rfl
          · rw [new]
            rfl
        have pristine : n'.isPristine = true := by
          rw [start, new]
          rfl
        rw [pristine, missing]
        exact .inl rfl
    · exact .inl ((differs.elsewhere key here).trans (located.elsewhere key here))
  refine ⟨⟨located.basis.parties_eq, located.basis.templates_eq, located.basis.settings_eq⟩,
    ⟨located.parties_sound sound, ?_, ?_⟩, entry⟩
  · change (((p₁.register.put h n').removeIfPristine h false).2).Sound
      (Negotiation.Held p₁.parties p₁.settings)
    rw [located.basis.parties_eq, located.basis.settings_eq]
    exact register_sound
  · intro key m found
    obtain same | ⟨n₀, before, after⟩ := entry key
    · exact sound.standing key m (same.symm.trans found)
    · obtain rfl := Option.some.inj (found.symm.trans after)
      obtain ⟨status, changed⟩ := n₀.notice_eq_withStatus now
      rw [changed]
      exact sound.standing key n₀ before

theorem Located.commits (located : Located p p₁ h n) (sound : p.Sound) (joins : n.Joins a b)
    (admits : n.Admits (p.context now) a b m) (basis : SameBasis p₁ p')
    (register_eq : p'.register = p₁.register.put h (n.apply m b)) :
    Commits p p' now n a b m := by
  have names : a.name ≠ b.name := (located.held.sides sound.parties).names_ne joins
  have held' : (n.apply m b).Held p.parties p.settings :=
    located.held.apply joins names admits
  have differs := Register.differs_put (n.apply m b) located.sound located.found
  have entry : p.register.Differs p'.register n.key (some (n.apply m b)) := by
    rw [register_eq]
    exact ⟨differs.at_key, fun k ne => (differs.elsewhere k ne).trans (located.elsewhere k ne)⟩
  refine ⟨located.basis.trans basis, ⟨?_, ?_, ?_⟩, located.stands, located.held, joins, admits,
    entry, ?_⟩
  · rw [basis.parties_eq, basis.settings_eq]
    exact located.parties_sound sound
  · rw [basis.parties_eq, basis.settings_eq, located.basis.parties_eq, located.basis.settings_eq,
      register_eq]
    exact located.sound.put located.found Negotiation.key_apply held'
  · intro key m' found
    by_cases here : key = n.key
    · subst here
      obtain rfl := Option.some.inj (found.symm.trans entry.at_key)
      refine ⟨?_, Negotiation.offers_apply_ne_nil located.held.recorded joins
        names admits⟩
      rw [Negotiation.retired_apply]
      exact (Negotiation.checkTurn_eq_ok_iff.1 admits.turn).1
    · exact sound.standing key m' ((entry.elsewhere key here).symm.trans found)
  · intro missing
    rw [register_eq, Register.keys_put located.sound located.found Negotiation.key_apply,
      located.opens missing, List.drop_left]
    exact List.mem_singleton_self _

theorem settle_eq : SameBasis p (p.settle h n m).proxy ∧
    (p.settle h n m).proxy.register = p.register.put h n ∧ (p.settle h n m).sent = [] := by
  unfold settle
  dsimp only
  split
  · exact ⟨⟨rfl, rfl, rfl⟩, rfl, rfl⟩
  · split
    · exact ⟨⟨rfl, rfl, rfl⟩, rfl, rfl⟩
    · exact ⟨⟨rfl, rfl, rfl⟩, rfl, rfl⟩

def SameButBank (p p' : Proxy) : Prop :=
  ∃ bank, p' = { p with bank }

theorem SameButBank.refl : SameButBank p p :=
  ⟨p.bank, rfl⟩

theorem SameButBank.trans (first : SameButBank p p₁) (second : SameButBank p₁ p') :
    SameButBank p p' := by
  obtain ⟨bank, rfl⟩ := first
  obtain ⟨bank', rfl⟩ := second
  exact ⟨bank', rfl⟩

theorem SameButBank.basis (same : SameButBank p p') : SameBasis p p' := by
  obtain ⟨bank, rfl⟩ := same
  exact ⟨rfl, rfl, rfl⟩

theorem SameButBank.register_eq (same : SameButBank p p') : p'.register = p.register := by
  obtain ⟨bank, rfl⟩ := same
  rfl

structure Fetches (p p' : Proxy) : Prop where
  bank : SameButBank p p'
  grows : p.bank.Grows p'.bank
  listings_eq : p'.bank.listings = p.bank.listings

theorem Fetches.refl : Fetches p p :=
  ⟨.refl, .refl, rfl⟩

theorem Fetches.trans (first : Fetches p p₁) (second : Fetches p₁ p') : Fetches p p' :=
  ⟨first.bank.trans second.bank, first.grows.trans second.grows,
    second.listings_eq.trans first.listings_eq⟩

theorem takeFetched_fetches (p : Proxy) (batch requested : List Digest) (fetched : List Message) :
    Fetches p (p.takeFetched batch requested fetched).2 ∧
      ∀ e, (p.takeFetched batch requested fetched).1 = .error e → e.Collides := by
  induction fetched generalizing p requested with
  | nil => exact ⟨.refl, by rintro _ ⟨⟩⟩
  | cons m rest ih =>
    unfold takeFetched
    split
    · cases stored : p.bank.addFetched m with
      | error e =>
        refine ⟨.refl, ?_⟩
        rintro _ ⟨⟩
        exact Bank.store_eq_error stored
      | ok r =>
        obtain ⟨grows, listings_eq⟩ := Bank.addFetched_eq_ok stored
        have step : Fetches p { p with bank := r.2 } := ⟨⟨r.2, rfl⟩, grows, listings_eq⟩
        have tail := ih { p with bank := r.2 } (wanted { p with bank := r.2 } m requested).2
        dsimp only
        split
        next took =>
          rw [took] at tail
          exact ⟨step.trans tail.1, by rintro _ ⟨⟩⟩
        next took =>
          rw [took] at tail
          refine ⟨step.trans tail.1, ?_⟩
          rintro _ ⟨⟩
          exact tail.2 _ rfl
    · exact ih p requested

theorem resolve_fetches (relay : Relay) (whom : Party) (rounds : Nat) (p : Proxy)
    (batch requested : List Digest) : Fetches p (resolve relay whom rounds p batch requested).proxy ∧
      (resolve relay whom rounds p batch requested).sent = [] ∧
      ∀ e, (resolve relay whom rounds p batch requested).result = .error e → e.Collides := by
  induction rounds generalizing p batch requested with
  | zero => exact ⟨.refl, rfl, by rintro _ ⟨⟩⟩
  | succ rounds ih =>
    unfold resolve
    split
    · exact ⟨.refl, rfl, by rintro _ ⟨⟩⟩
    · cases relay.fetch batch whom with
      | error cause => exact ⟨.refl, rfl, by rintro _ ⟨⟩⟩
      | ok fetched =>
        have step := takeFetched_fetches p batch requested fetched
        dsimp only
        split
        next took =>
          rw [took] at step
          refine ⟨step.1, rfl, ?_⟩
          rintro _ ⟨⟩
          exact step.2 _ rfl
        next next requested' p₁ took =>
          rw [took] at step
          obtain ⟨same, sent, failing⟩ := ih p₁ next requested'
          exact ⟨step.1.trans same, sent, failing⟩

theorem settle_resolve_eq :
    SameBasis p ((p.settle h n m).andThen fun p () => p.resolveReferences relay m b).proxy ∧
    ((p.settle h n m).andThen fun p () => p.resolveReferences relay m b).proxy.register =
      p.register.put h n ∧
    ((p.settle h n m).andThen fun p () => p.resolveReferences relay m b).sent = [] := by
  obtain ⟨basis, register_eq, sent⟩ := settle_eq (p := p) (h := h) (n := n) (m := m)
  unfold Outcome.andThen
  split
  · exact ⟨basis, register_eq, sent⟩
  · obtain ⟨⟨same, -, -⟩, sent', -⟩ := resolve_fetches relay b maxRounds (p.settle h n m).proxy
      ((p.settle h n m).proxy.wanted m []).1 ((p.settle h n m).proxy.wanted m []).2
    refine ⟨basis.trans same.basis, same.register_eq.trans register_eq, ?_⟩
    simp only [sent, List.nil_append]
    exact sent'

theorem located_of_known {id : NegotiationId} (sound : p.Sound)
    (owned_mem : a ∈ p.parties.directory.entries) (counter_mem : b ∈ p.parties.directory.entries)
    (isCounter : b.isOwned = false)
    (known : p.register.find? (.of a.name b.name, id) = some (h, n)) :
    Located p p h n ∧ n.first = a ∧ n.second = b ∧ n.id = id := by
  have key_eq := sound.register.key_eq known
  have held := sound.register.holds_of_find? known
  obtain ⟨first, second⟩ := held.parties_eq sound.parties owned_mem counter_mem isCounter
    (congrArg Prod.fst key_eq)
  exact ⟨located_of_find? sound known, first, second, congrArg Prod.snd key_eq⟩

theorem lookUp_cases (looked : p.lookUp m a b = .ok ((h, n), p₁)) :
    (p₁ = p ∧ p.register.find? (.of a.name b.name, m.id) = some (h, n)) ∨
      m.kind = .offer ∧ p.register.registered? (Negotiation.start m.id a b).key = none ∧
        h = p.register.negotiations.length ∧ n = .start m.id a b ∧
        p₁ = { p with register := (p.register.insert m.id a b).2 } := by
  unfold lookUp at looked
  split at looked
  next opening =>
    unfold Register.getOrCreate at looked
    cases known : p.register.find? (.of a.name b.name, m.id) with
    | some entry =>
      simp only [known, Except.ok.injEq, Prod.mk.injEq] at looked
      obtain ⟨rfl, rfl⟩ := looked
      exact .inl ⟨rfl, rfl⟩
    | none =>
      simp only [known] at looked
      cases looked
      exact .inr ⟨opening, Option.map_eq_none_iff.2 known, rfl, rfl, rfl⟩
  · cases got : p.register.getBy a.name b.name m.id with
    | error e =>
      rw [got] at looked
      cases looked
    | ok entry =>
      rw [got] at looked
      cases looked
      exact .inl ⟨rfl, Register.getBy_eq_ok got⟩

theorem lookUp_eq_ok (sound : p.Sound) (owned_mem : a ∈ p.parties.directory.entries)
    (counter_mem : b ∈ p.parties.directory.entries) (isOwned : a.isOwned = true)
    (isCounter : b.isOwned = false) (found : p.lookUp m a b = .ok ((h, n), p₁)) :
    Located p p₁ h n ∧ n.first = a ∧ n.second = b ∧ n.id = m.id := by
  obtain ⟨rfl, known⟩ | ⟨-, missing, rfl, rfl, rfl⟩ := lookUp_cases found
  · exact located_of_known sound owned_mem counter_mem isCounter known
  · exact ⟨located_insert p.register.drawn sound owned_mem counter_mem isOwned isCounter missing,
      rfl, rfl, rfl⟩

theorem Sound.rests (sound : p.Sound) : Rests p p now :=
  ⟨.refl, sound, fun _ => .inl rfl⟩

def take (p : Proxy) (relay : Relay) (now : Instant) (m : Message) (sender : Party) (h : Handle)
    (n : Negotiation) : Outcome Unit :=
  match n.receive (p.context now) m with
  | (.error e, n') => p.refuse h n n' e
  | (.ok (), n') => (p.settle h n' m).andThen fun p () => p.resolveReferences relay m sender

theorem receive_eq_take (counter : p.parties.byFingerprint .counter m.sender = .ok b)
    (owned : p.parties.byFingerprint .owned m.receiver = .ok a)
    (looked : p.lookUp m a b = .ok ((h, n), p₁)) :
    p.receive relay now m = p₁.take relay now m b h n := by
  unfold receive
  simp only [counter, owned, looked, bind, Except.bind, pure, Except.pure]
  rfl

theorem lookUp_checks (p : Proxy) (m : Message) (a b : Party) : Checks (p.lookUp m a b) := by
  unfold lookUp
  split
  · exact .ok _
  · exact (p.register.getBy_checks _ _ _).map

theorem receive_cases (relay : Relay) (now : Instant) (m : Message) :
    (∃ e : Error, e.Declines ∧ p.receive relay now m = .quiet p (.error e)) ∨
      ∃ a b h n p₁, p.parties.byFingerprint .counter m.sender = .ok b ∧
        p.parties.byFingerprint .owned m.receiver = .ok a ∧
        p.lookUp m a b = .ok ((h, n), p₁) := by
  cases counter : p.parties.byFingerprint .counter m.sender with
  | error e =>
    refine .inl ⟨e, p.parties.byFingerprint_checks _ _ e counter, ?_⟩
    unfold receive
    simp only [counter, bind, Except.bind]
  | ok b =>
    cases owned : p.parties.byFingerprint .owned m.receiver with
    | error e =>
      refine .inl ⟨e, p.parties.byFingerprint_checks _ _ e owned, ?_⟩
      unfold receive
      simp only [counter, owned, bind, Except.bind]
    | ok a =>
      cases looked : p.lookUp m a b with
      | error e =>
        refine .inl ⟨e, p.lookUp_checks m a b e looked, ?_⟩
        unfold receive
        simp only [counter, owned, looked, bind, Except.bind]
      | ok r => exact .inr ⟨a, b, r.1.1, r.1.2, r.2, rfl, rfl, looked⟩

theorem Located.sides (located : Located p p₁ h n) (sound : p.Sound) :
    n.Sides p.settings n.first n.second :=
  located.held.sides sound.parties

theorem Located.take_rests {e : Error} (located : Located p p₁ h n) (sound : p.Sound)
    (refused : n.receive (p₁.context now) m = (.error e, n')) :
    (p₁.take relay now m b h n).sent = [] ∧ Rests p (p₁.take relay now m b h n).proxy now := by
  unfold take
  rw [refused]
  exact ⟨rfl, located.rests sound (Negotiation.stays_of_receive refused)⟩

theorem Located.take_commits (located : Located p p₁ h n) (sound : p.Sound)
    (admits : n.Admits (p.context now) n.second n.first m)
    (timely : Negotiation.checkTimestamp (p.context now) m.signature.timestamp = .ok ()) :
    (p₁.take relay now m b h n).sent = [] ∧
      Commits p (p₁.take relay now m b h n).proxy now n n.second n.first m := by
  have received : n.receive (p₁.context now) m = (.ok (), n.apply m n.first) := by
    rw [(located.sides sound).receive_eq_ok_iff, located.basis.context_eq]
    exact ⟨rfl, admits, timely⟩
  unfold take
  rw [received]
  obtain ⟨basis, register_eq, sent⟩ := settle_resolve_eq (p := p₁) (h := h)
    (n := n.apply m n.first) (m := m) (b := b)
  exact ⟨sent, located.commits sound (.inr ⟨rfl, rfl⟩) admits basis register_eq⟩

theorem located_of_receive (sound : p.Sound)
    (counter : p.parties.byFingerprint .counter m.sender = .ok b)
    (owned : p.parties.byFingerprint .owned m.receiver = .ok a)
    (looked : p.lookUp m a b = .ok ((h, n), p₁)) :
    Located p p₁ h n ∧ n.first = a ∧ n.second = b ∧ n.id = m.id := by
  obtain ⟨-, counter_mem, -, isCounter⟩ :=
    (Parties.byFingerprint_eq_ok_iff sound.parties.wellFormed).1 counter
  obtain ⟨-, owned_mem, -, isOwned⟩ :=
    (Parties.byFingerprint_eq_ok_iff sound.parties.wellFormed).1 owned
  exact lookUp_eq_ok sound owned_mem counter_mem isOwned (by simpa [Parties.Role.admits] using isCounter) looked

theorem receive_effect (sound : p.Sound) (relay : Relay) (now : Instant) (m : Message) :
    (p.receive relay now m).sent = [] ∧ (Rests p (p.receive relay now m).proxy now ∨
      ∃ n, Commits p (p.receive relay now m).proxy now n n.second n.first m ∧
        Negotiation.checkTimestamp (p.context now) m.signature.timestamp = .ok ()) := by
  obtain ⟨e, -, quiet⟩ | ⟨a, b, h, n, p₁, counter, owned, looked⟩ :=
    receive_cases (p := p) relay now m
  · rw [quiet]
    exact ⟨rfl, .inl sound.rests⟩
  · obtain ⟨located, -, -, -⟩ := located_of_receive sound counter owned looked
    rw [receive_eq_take counter owned looked]
    cases received : n.receive (p₁.context now) m with
    | mk result n' =>
      cases result with
      | error e =>
        obtain ⟨sent, rests⟩ := located.take_rests (b := b) sound received
        exact ⟨sent, .inl rests⟩
      | ok u =>
        obtain ⟨-, admits, timely⟩ := (located.sides sound).receive_eq_ok_iff.1 received
        rw [located.basis.context_eq] at admits timely
        obtain ⟨sent, commits⟩ :=
          located.take_commits (b := b) sound admits timely
        exact ⟨sent, .inr ⟨n, commits, timely⟩⟩

theorem byFingerprint_of_mem {ps : Parties} {s : Settings} {role : Parties.Role} {f : Digest}
    (sound : ps.Sound s) (mem : a ∈ ps.directory.entries) (print : f ∈ a.fingerprints)
    (admitted : role.admits a = true) : ps.byFingerprint role f = .ok a := by
  rw [Parties.byFingerprint_eq_ok_iff sound.wellFormed, sound.accepted_eq]
  exact ⟨(sound.built a mem).algorithm_mem print, mem, print, admitted⟩

theorem lookUp_of_admits (stands : p.Stands n) (admits : n.Admits (p.context now) b a m) :
    ∃ h p₁, p.lookUp m n.first n.second = .ok ((h, n), p₁) := by
  obtain known | ⟨missing, new⟩ := stands
  · obtain ⟨h, found⟩ := Register.registered?_eq_some known
    have found : p.register.find? (.of n.first.name n.second.name, m.id) = some (h, n) := by
      rw [admits.id_eq]
      exact found
    refine ⟨h, p, ?_⟩
    unfold lookUp Register.getOrCreate Register.getBy
    split
    · simp only [found]
    · simp only [found]
      rfl
  · have opening : m.kind = .offer := by
      obtain ⟨-, ⟨-, opening⟩ | ⟨offering, -, -⟩⟩ := Negotiation.checkTurn_eq_ok_iff.1 admits.turn
      · exact opening
      · rw [new] at offering
        cases offering
    have missing : p.register.find? (.of n.first.name n.second.name, m.id) = none := by
      rw [admits.id_eq]
      exact Register.find?_eq_none missing
    have new : Negotiation.start m.id n.first n.second = n := by
      rw [admits.id_eq]
      exact new.symm
    refine ⟨p.register.negotiations.length,
      { p with register := (p.register.insert m.id n.first n.second).2 }, ?_⟩
    unfold lookUp Register.getOrCreate
    simp only [opening, missing]
    unfold Register.insert
    rw [new]

theorem receive_commits (sound : p.Sound) (relay : Relay) (stands : p.Stands n)
    (held : n.Held p.parties p.settings)
    (admits : n.Admits (p.context now) n.second n.first m)
    (timely : Negotiation.checkTimestamp (p.context now) m.signature.timestamp = .ok ()) :
    Commits p (p.receive relay now m).proxy now n n.second n.first m := by
  have counter : p.parties.byFingerprint .counter m.sender = .ok n.second :=
    byFingerprint_of_mem sound.parties held.counter_mem admits.sender_mem
      (by simp [Parties.Role.admits, held.isCounter])
  have owned : p.parties.byFingerprint .owned m.receiver = .ok n.first :=
    byFingerprint_of_mem sound.parties held.owned_mem admits.receiver_mem held.isOwned
  obtain ⟨h, p₁, looked⟩ := lookUp_of_admits stands admits
  obtain ⟨located, -, -, -⟩ := located_of_receive sound counter owned looked
  rw [receive_eq_take counter owned looked]
  exact (located.take_commits sound admits timely).2

def Sends (p p' : Proxy) (now : Instant) (sent : List Envelope) : Prop :=
  (Rests p p' now ∧ sent = []) ∨
    ∃ n m, Commits p p' now n n.first n.second m ∧ sent = [⟨n.second.name, m⟩]

theorem discard_eq_self (got : p.register.get? h = some n) (live : n.isPristine = false) :
    p.discard h = p := by
  unfold discard Register.removeIfPristine
  simp [got, live]

theorem discard_discard : (p.discard h).discard h = p.discard h := by
  cases got : p.register.get? h with
  | none =>
    have same : p.discard h = p := by simp [discard, Register.removeIfPristine, got]
    rw [same, same]
  | some n =>
    by_cases live : n.isPristine = false
    · rw [discard_eq_self got live, discard_eq_self got live]
    · by_cases here : (p.register.find? (n.pair, n.id)).map (·.1) = some h
      · have removed : (p.register.removeIfPristine h false).2.negotiations =
            p.register.negotiations.set h { n with retired := true } := by
          unfold Register.removeIfPristine
          simp [got, live, here, Register.put]
        have inside := (List.getElem?_eq_some_iff.1 got).1
        refine discard_eq_self (n := { n with retired := true }) ?_ (by simp [Negotiation.isPristine])
        unfold discard Register.get?
        rw [removed, List.getElem?_set_self inside]
      · have same : p.discard h = p := by
          simp [discard, Register.removeIfPristine, got, here]
        rw [same, same]

theorem Located.transmit_eq (located : Located p p₁ h n) (sound : p.Sound)
    {prepare : Negotiation → Except Error Prepared × Negotiation}
    (ready : prepare n = (.ok ⟨n.id, n.offers.length, n.status, n.second, m⟩, n))
    (admits : n.Admits (p.context now) n.first n.second m)
    (online : relay.send m n.second = .ok ()) :
    Commits p (p₁.transmit relay h n prepare).proxy now n n.first n.second m ∧
      (p₁.transmit relay h n prepare).sent = [⟨n.second.name, m⟩] ∧
      (p₁.transmit relay h n prepare).proxy.register = p₁.register.put h (n.apply m n.second) := by
  obtain ⟨basis, register_eq, sent⟩ := settle_eq (p := p₁) (h := h) (n := n.apply m n.second) (m := m)
  unfold transmit
  simp only [ready, Prepared.deliver, online, Negotiation.commit_ready admits.turn, sent]
  exact ⟨located.commits sound (.inl ⟨rfl, rfl⟩) admits basis register_eq, trivial, register_eq⟩

theorem Located.transmits (located : Located p p₁ h n) (sound : p.Sound)
    {prepare : Negotiation → Except Error Prepared × Negotiation}
    (prepares : n.Prepares (p.context now) n.first n.second (prepare n)) :
    (∃ e n', n.Stays now n' ∧ (p₁.transmit relay h n prepare).result = .error e ∧
      (p₁.transmit relay h n prepare).sent = [] ∧
      ((p₁.transmit relay h n prepare).proxy = (p₁.put h n').discard h ∨
        (p₁.transmit relay h n prepare).proxy = p₁.put h n')) ∨
    ∃ m, Commits p (p₁.transmit relay h n prepare).proxy now n n.first n.second m ∧
      (p₁.transmit relay h n prepare).sent = [⟨n.second.name, m⟩] ∧
      (p₁.transmit relay h n prepare).proxy.register = p₁.register.put h (n.apply m n.second) := by
  generalize prepared : prepare n = r at prepares
  cases prepares with
  | refused e n' stays =>
    refine .inl ⟨e, n', stays, ?_⟩
    unfold transmit
    rw [prepared]
    exact ⟨rfl, rfl, .inl rfl⟩
  | ready m admits =>
    cases online : relay.send m n.second with
    | error cause =>
      refine .inl ⟨.relay cause, n, .inl rfl, ?_⟩
      unfold transmit
      simp only [prepared, Prepared.deliver, online]
      exact ⟨rfl, rfl, .inr rfl⟩
    | ok u => exact .inr ⟨m, located.transmit_eq sound prepared admits online⟩

theorem Located.sends (located : Located p p₁ h n) (sound : p.Sound)
    (known : p.register.registered? n.key = some n)
    {prepare : Negotiation → Except Error Prepared × Negotiation}
    (prepares : n.Prepares (p.context now) n.first n.second (prepare n)) :
    Sends p (p₁.transmit relay h n prepare).proxy now (p₁.transmit relay h n prepare).sent := by
  obtain ⟨e, n', stays, -, sent, left⟩ | ⟨m, commits, sent, -⟩ :=
    located.transmits sound prepares
  · have rests := located.rests sound stays
    have kept : (p₁.put h n').discard h = p₁.put h n' := by
      have got := (Register.find?_eq_some_iff.1 (Register.find?_put n' located.found)).2
      refine discard_eq_self got ?_
      have opened := (sound.standing _ _ known).2
      obtain ⟨status, rfl⟩ := stays.eq_withStatus
      simp [Negotiation.isPristine, opened]
    rw [kept, or_self] at left
    rw [left, ← kept]
    exact .inl ⟨rests, sent⟩
  · exact .inr ⟨n, m, commits, sent⟩

theorem Located.sends_new (located : Located p p₁ h n) (sound : p.Sound)
    {prepare : Negotiation → Except Error Prepared × Negotiation}
    (prepares : n.Prepares (p.context now) n.first n.second (prepare n)) :
    Sends p ((p₁.transmit relay h n prepare).ifFailed (·.discard h)).proxy now
      ((p₁.transmit relay h n prepare).ifFailed (·.discard h)).sent := by
  unfold Outcome.ifFailed
  obtain ⟨e, n', stays, failed, sent, left⟩ | ⟨m, commits, sent, register_eq⟩ :=
    located.transmits sound prepares
  · rw [failed]
    dsimp only
    refine .inl ⟨?_, sent⟩
    obtain left | left := left
    · rw [left, discard_discard]
      exact located.rests sound stays
    · rw [left]
      exact located.rests sound stays
  · have names := (located.sides sound).names_ne commits.joins
    have live : (n.apply m n.second).isPristine = false := by
      simp [Negotiation.isPristine, Negotiation.offers_apply_ne_nil
        commits.held.recorded commits.joins names commits.admits]
    have got : (p₁.transmit relay h n prepare).proxy.register.get? h = some (n.apply m n.second) := by
      rw [register_eq]
      exact (Register.find?_eq_some_iff.1 (Register.find?_put _ located.found)).2
    split
    · dsimp only
      rw [discard_eq_self got live]
      exact .inr ⟨n, m, commits, sent⟩
    · exact .inr ⟨n, m, commits, sent⟩

end Proxy

end Parley
