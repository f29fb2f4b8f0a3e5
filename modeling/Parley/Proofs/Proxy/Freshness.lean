import Parley.Proofs.Proxy.Resolution

namespace Parley

def Relay.taken (relay : Relay) (whom : Party) (fetches : List Fetch) : List Message :=
  fetches.flatMap fun f => (relay.returned whom f).filter (·.answers f.hashes)

@[simp] theorem Relay.taken_nil (relay : Relay) (whom : Party) : relay.taken whom [] = [] :=
  rfl

theorem Relay.taken_singleton (relay : Relay) (whom : Party) (f : Fetch) :
    relay.taken whom [f] = (relay.returned whom f).filter (·.answers f.hashes) := by
  simp [taken]

theorem Relay.taken_cons (relay : Relay) (whom : Party) (f : Fetch) (rest : List Fetch) :
    relay.taken whom (f :: rest) = relay.taken whom [f] ++ relay.taken whom rest := by
  simp [taken]

theorem Relay.taken_append (relay : Relay) (whom : Party) (fetches rest : List Fetch) :
    relay.taken whom (fetches ++ rest) = relay.taken whom fetches ++ relay.taken whom rest :=
  List.flatMap_append

namespace Proxy

variable {p p' q : Proxy} {m d : Message} {ds fetched : List Message} {h : Digest}
variable {batch next requested requested' asked : List Digest} {relay : Relay} {whom : Party}
variable {f last : Fetch} {before after : List Fetch} {rounds : Nat} {now : Instant} {event : Event}

/-- That one of some definitions refers to a digest that is unknown once the definition is stored,
after those before it. -/
def Notes (p : Proxy) (ds : List Message) (h : Digest) : Prop :=
  ∃ read d rest, ds = read ++ d :: rest ∧ h ∈ d.references ∧
    (p.gather (read ++ [d])).bank.get? h = none

theorem notes_nil : ¬ p.Notes [] h := by
  rintro ⟨read, d, rest, split_eq, -⟩
  exact List.append_ne_nil_of_right_ne_nil read (List.cons_ne_nil d rest) split_eq.symm

theorem notes_cons_iff : p.Notes (d :: ds) h ↔
    h ∈ d.references ∧ (p.gather [d]).bank.get? h = none ∨ (p.gather [d]).Notes ds h := by
  constructor
  · rintro ⟨_ | ⟨d', read⟩, d'', rest, split_eq, refers, unknown⟩
    · cases split_eq
      exact .inl ⟨refers, unknown⟩
    · cases split_eq
      refine .inr ⟨read, d'', rest, rfl, refers, ?_⟩
      rw [← gather_append]
      exact unknown
  · rintro (⟨refers, unknown⟩ | ⟨read, d', rest, rfl, refers, unknown⟩)
    · exact ⟨[], d, ds, rfl, refers, unknown⟩
    · refine ⟨d :: read, d', rest, rfl, refers, ?_⟩
      rw [← gather_append] at unknown
      exact unknown

theorem mem_next_iff (took : p.takeFetched batch requested fetched = (.ok (next, requested'), p')) :
    h ∈ next ↔ p.settings.accepts h.algorithm = true ∧ h ∉ requested ∧
      p.Notes (fetched.filter (·.answers batch)) h := by
  induction fetched generalizing p requested next with
  | nil =>
    cases took
    simp [notes_nil]
  | cons m rest ih =>
    rw [List.filter_cons]
    obtain ⟨answers, more, rfl, rest_took⟩ | ⟨other, rest_took⟩ := takeFetched_cons_eq_ok took
    · have new_iff : h ∈ ((p.gather [m]).wanted m requested).1 ↔ _ := mem_wanted_iff
      have more_iff := ih rest_took
      rw [((p.gather [m]).wanted_follows m requested).requested_eq, List.mem_append,
        List.mem_reverse] at more_iff
      rw [if_pos answers, notes_cons_iff, List.mem_append]
      constructor
      · rintro (new | more)
        · obtain ⟨accepted, fresh, refers, unknown⟩ := new_iff.1 new
          exact ⟨accepted, fresh, .inl ⟨refers, unknown⟩⟩
        · obtain ⟨accepted, fresh, notes⟩ := more_iff.1 more
          exact ⟨accepted, fun before => fresh (.inr before), .inr notes⟩
      · rintro ⟨accepted, fresh, ⟨refers, unknown⟩ | notes⟩
        · exact .inl (new_iff.2 ⟨accepted, fresh, refers, unknown⟩)
        · -- what an answer before has noted already is not noted again
          by_cases new : h ∈ ((p.gather [m]).wanted m requested).1
          · exact .inl new
          · exact .inr (more_iff.2 ⟨accepted, not_or.2 ⟨new, fresh⟩, notes⟩)
    · rw [if_neg (Bool.eq_false_iff.1 other)]
      exact ih rest_took

theorem resolve_cons
    (fetches_eq : (resolve relay whom rounds p batch requested).fetches = f :: after) :
    f = ⟨whom.name, batch⟩ ∧ (after ≠ [] → ∃ next,
      p.takeFetched batch requested (relay.returned whom f) =
        (.ok (next, next.reverse ++ requested), p.gather (relay.taken whom [f])) ∧
      resolve relay whom (rounds - 1) (p.gather (relay.taken whom [f])) next
          (next.reverse ++ requested) =
        { resolve relay whom rounds p batch requested with fetches := after }) := by
  cases rounds with
  | zero => cases fetches_eq
  | succ rounds =>
    by_cases nothing : batch = []
    · rw [nothing, resolve_nil] at fetches_eq
      cases fetches_eq
    rw [resolve, if_neg (by simpa using nothing)] at fetches_eq ⊢
    dsimp only at fetches_eq ⊢
    cases answered : relay.fetch batch whom with
    | error e =>
      rw [answered] at fetches_eq
      cases fetches_eq
      exact ⟨rfl, fun more => absurd rfl more⟩
    | ok fetched =>
      have returned_eq : relay.returned whom ⟨whom.name, batch⟩ = fetched := by
        simp only [Relay.returned, answered]
      have taken_eq : relay.taken whom [⟨whom.name, batch⟩] = fetched.filter (·.answers batch) := by
        rw [Relay.taken_singleton, returned_eq]
      rw [answered] at fetches_eq
      dsimp only at fetches_eq ⊢
      split at fetches_eq
      · cases fetches_eq
        exact ⟨rfl, fun more => absurd rfl more⟩
      next next requested' p' took =>
        cases fetches_eq
        refine ⟨rfl, fun _ => ⟨next, ?_⟩⟩
        obtain ⟨p'_eq, follows⟩ := takeFetched_eq_ok took
        rw [returned_eq, taken_eq, ← p'_eq, ← follows.requested_eq, took]
        exact ⟨rfl, rfl⟩

/-- At each of its fetches a resolution stands where the answers to those before have led. -/
theorem resolve_append
    (fetches_eq : (resolve relay whom rounds p batch (batch.reverse ++ asked)).fetches =
      before ++ f :: after) :
    resolve relay whom (rounds - before.length) (p.gather (relay.taken whom before)) f.hashes
        (((before ++ [f]).flatMap (·.hashes)).reverse ++ asked) =
      { resolve relay whom rounds p batch (batch.reverse ++ asked) with fetches := f :: after } := by
  induction before generalizing rounds p batch asked with
  | nil =>
    obtain ⟨f_eq, -⟩ := resolve_cons fetches_eq
    have batch_eq : f.hashes = batch := by rw [f_eq]
    rw [List.nil_append] at fetches_eq
    simp [← fetches_eq, batch_eq]
  | cons f' before ih =>
    obtain ⟨f'_eq, goes_on⟩ := resolve_cons fetches_eq
    obtain ⟨next, -, resolve_eq⟩ := goes_on (by simp)
    have batch_eq : f'.hashes = batch := by rw [f'_eq]
    have rest := ih (congrArg Outcome.fetches resolve_eq)
    rw [resolve_eq] at rest
    rw [Relay.taken_cons, gather_append, ← rest]
    simp [batch_eq, Nat.sub_sub, Nat.add_comm]

theorem mem_second_iff
    (fetches_eq : (resolve relay whom rounds p batch requested).fetches = last :: f :: after) :
    h ∈ f.hashes ↔ p.settings.accepts h.algorithm = true ∧ h ∉ requested ∧
      p.Notes (relay.taken whom [last]) h := by
  obtain ⟨last_eq, goes_on⟩ := resolve_cons fetches_eq
  obtain ⟨next, took, resolve_eq⟩ := goes_on (by simp)
  obtain ⟨f_eq, -⟩ := resolve_cons (congrArg Outcome.fetches resolve_eq)
  have taken_eq : relay.taken whom [last] = (relay.returned whom last).filter (·.answers batch) := by
    rw [Relay.taken_singleton, last_eq]
  rw [f_eq, taken_eq]
  exact mem_next_iff took

/-- That a digest is due after some fetches: its algorithm is accepted, it was not asked for yet, and
the message or else what was answered last noted it. -/
structure Due (relay : Relay) (whom : Party) (m : Message) (q : Proxy) (before : List Fetch)
    (h : Digest) : Prop where
  accepted : q.settings.accepts h.algorithm = true
  fresh : h ∉ before.flatMap (·.hashes)
  noted : before = [] ∧ h ∈ m.references ∧ q.bank.get? h = none ∨ ∃ earlier last,
    before = earlier ++ [last] ∧ (q.gather (relay.taken whom earlier)).Notes (relay.taken whom [last]) h

/-- That a digest names a definition which the last answer brought, asked for under another algorithm,
but after one that refers to it by this digest. -/
def Overtaken (relay : Relay) (whom : Party) (before : List Fetch) (h : Digest) (d : Message) : Prop :=
  ∃ earlier last read referrer rest, before = earlier ++ [last] ∧
    relay.taken whom [last] = read ++ referrer :: rest ∧ h ∈ referrer.references ∧ d ∈ rest ∧
    h.verifies d.canonicalBytes = true ∧
    ∃ k ∈ last.hashes, k.verifies d.canonicalBytes = true ∧ k.algorithm ≠ h.algorithm

theorem Notes.later (notes : p.Notes ds h) (placed : p.bank.Placed)
    (found : (p.gather ds).bank.get? h = some d) : ∃ read referrer rest,
      ds = read ++ referrer :: rest ∧ h ∈ referrer.references ∧ d ∈ rest ∧
        h.verifies d.canonicalBytes = true := by
  obtain ⟨read, referrer, rest, rfl, refers, unknown⟩ := notes
  rw [List.append_cons, gather_append] at found
  have placed := (p.gather_fetches (read ++ [referrer])).grows.placed placed
  obtain before | ⟨mem, named⟩ := Bank.keepFetched_origin placed found
  · rw [unknown] at before
    cases before
  · exact ⟨read, referrer, rest, rfl, refers, mem, named⟩

theorem resolveReferences_fetches
    (fetches_eq : (q.resolveReferences relay m whom).fetches = before ++ f :: after) :
    resolve relay whom (maxRounds - before.length) (q.gather (relay.taken whom before)) f.hashes
        ((before ++ [f]).flatMap (·.hashes)).reverse =
      { q.resolveReferences relay m whom with fetches := f :: after } := by
  unfold resolveReferences at fetches_eq ⊢
  dsimp only at fetches_eq ⊢
  rw [(q.wanted_follows m []).requested_eq] at fetches_eq ⊢
  have resolve_eq := resolve_append fetches_eq
  rwa [List.append_nil] at resolve_eq

theorem due_iff (fetches_eq : (q.resolveReferences relay m whom).fetches = before ++ f :: after) :
    h ∈ f.hashes ↔ Due relay whom m q before h := by
  obtain rfl | ⟨earlier, last, rfl⟩ := List.eq_nil_or_concat before
  · obtain ⟨f_eq, -⟩ := resolve_cons fetches_eq
    rw [f_eq]
    refine mem_wanted_iff.trans ⟨fun ⟨accepted, fresh, refers, unknown⟩ => ?_, fun due => ?_⟩
    · exact ⟨accepted, fresh, .inl ⟨rfl, refers, unknown⟩⟩
    · obtain ⟨-, refers, unknown⟩ | ⟨earlier, last, split_eq, -⟩ := due.noted
      · exact ⟨due.accepted, due.fresh, refers, unknown⟩
      · exact absurd split_eq.symm (List.append_ne_nil_of_right_ne_nil _ (List.cons_ne_nil _ _))
  · rw [List.concat_eq_append, List.append_assoc] at fetches_eq
    have resolve_eq := resolveReferences_fetches fetches_eq
    rw [List.concat_eq_append]
    refine (mem_second_iff (congrArg Outcome.fetches resolve_eq)).trans ?_
    rw [List.mem_reverse]
    refine ⟨fun ⟨accepted, fresh, notes⟩ => ?_, fun due => ?_⟩
    · exact ⟨accepted, fresh, .inr ⟨earlier, last, rfl, notes⟩⟩
    · obtain ⟨split_eq, -⟩ | ⟨earlier', last', split_eq, notes⟩ := due.noted
      · exact absurd split_eq (List.append_ne_nil_of_right_ne_nil _ (List.cons_ne_nil _ _))
      · obtain ⟨rfl, rfl⟩ := List.append_inj' split_eq rfl |>.imp_right List.singleton_inj.1
        exact ⟨due.accepted, due.fresh, notes⟩

theorem Due.overtaken (due : Due relay whom m q before h) (placed : q.bank.Placed)
    (found : (q.gather (relay.taken whom before)).bank.get? h = some d) :
    Overtaken relay whom before h d := by
  obtain ⟨rfl, -, unknown⟩ | ⟨earlier, last, rfl, notes⟩ := due.noted
  · rw [Relay.taken_nil, gather_nil, unknown] at found
    cases found
  · rw [Relay.taken_append, gather_append] at found
    have placed := (q.gather_fetches (relay.taken whom earlier)).grows.placed placed
    obtain ⟨read, referrer, rest, taken_eq, refers, mem, named⟩ := notes.later placed found
    refine ⟨earlier, last, read, referrer, rest, rfl, taken_eq, refers, mem, named, ?_⟩
    have taken : d ∈ relay.taken whom [last] := by simp [taken_eq, mem]
    have answers : d.answers last.hashes = true := by
      rw [Relay.taken_singleton] at taken
      exact (List.mem_filter.1 taken).2
    obtain ⟨k, asked, named'⟩ := List.any_eq_true.1 answers
    refine ⟨k, asked, named', fun same => due.fresh ?_⟩
    have k_eq : k = h := by
      rw [← (Digest.verifies_iff _ _).1 named', ← (Digest.verifies_iff _ _).1 named, same]
    simp [← k_eq, asked]

theorem Accepts.known (accepts : p.Accepts now m whom event q)
    (nothing : (p.receive relay now m).fetches = []) (refers : h ∈ m.references)
    (accepted : q.settings.accepts h.algorithm = true) : ∃ d, q.bank.get? h = some d := by
  rw [accepts.receive_eq] at nothing
  have wanted_eq : (q.wanted m []).1 = [] := by
    have resolves := resolveReferences_resolves relay q m whom
    generalize q.resolveReferences relay m whom = o at resolves nothing
    generalize (q.wanted m []).1 = batch at resolves ⊢
    cases resolves with
    | done => rfl
    | _ => cases nothing
  cases found : q.bank.get? h with
  | some d => exact ⟨d, rfl⟩
  | none =>
    have mem := mem_wanted_iff.2 ⟨accepted, List.not_mem_nil, refers, found⟩
    rw [wanted_eq] at mem
    cases mem

/-- What a fetch of a resolution asks for, and what of it is known by then. -/
structure Asks (relay : Relay) (whom : Party) (m : Message) (q : Proxy) (o : Outcome Unit)
    (before : List Fetch) (f : Fetch) (after : List Fetch) : Prop where
  resumes : resolve relay whom (maxRounds - before.length) (q.gather (relay.taken whom before)) f.hashes
      ((before ++ [f]).flatMap (·.hashes)).reverse = { o with events := [], fetches := f :: after }
  due : ∀ h, h ∈ f.hashes ↔ Due relay whom m q before h
  overtaken : ∀ h ∈ f.hashes, ∀ d, (q.gather (relay.taken whom before)).bank.get? h = some d →
    Overtaken relay whom before h d
  unknown : ∀ a, q.settings.accepted = [a] → ∀ h ∈ f.hashes,
    (q.gather (relay.taken whom before)).bank.get? h = none

/-- Whatever a counter-party answers, it is asked for what was unknown when it was referred to. Of
that only what came in the answer just before, and under another algorithm, is known by then. -/
theorem resolution_asks (reachable : p.Reachable) (accepts : p.Accepts now m whom event q)
    (relay : Relay) (fetches_eq : (p.receive relay now m).fetches = before ++ f :: after) :
    Asks relay whom m q (p.receive relay now m) before f after := by
  have resolves := resolveReferences_resolves relay q m whom
  have placed := accepts.placed reachable.steady.placed
  rw [accepts.receive_resolves relay] at fetches_eq ⊢
  replace fetches_eq : (q.resolveReferences relay m whom).fetches = before ++ f :: after := fetches_eq
  have overtaken : ∀ h ∈ f.hashes, ∀ d, (q.gather (relay.taken whom before)).bank.get? h = some d →
      Overtaken relay whom before h d := fun h mem d found =>
    ((due_iff fetches_eq).1 mem).overtaken placed found
  refine {
    resumes := ?_
    due := fun h => due_iff fetches_eq
    overtaken
    unknown := fun a accepted_eq h mem => ?_ }
  · rw [resolveReferences_fetches fetches_eq]
    dsimp only
    rw [resolves.quiet.2]
  · cases found : (q.gather (relay.taken whom before)).bank.get? h with
    | none => rfl
    | some d =>
      obtain ⟨earlier, last, -, -, -, rfl, -, -, -, -, k, asked, -, other⟩ := overtaken h mem d found
      have only : ∀ f' ∈ (q.resolveReferences relay m whom).fetches, ∀ k ∈ f'.hashes, k.algorithm = a :=
        fun f' f'_mem k k_mem => by
          have accepted := resolves.accepted (q.wanted_follows m []).accepted f' f'_mem k k_mem
          simpa [Settings.accepts, accepted_eq] using accepted
      have f_mem : f ∈ (q.resolveReferences relay m whom).fetches := by simp [fetches_eq]
      have last_mem : last ∈ (q.resolveReferences relay m whom).fetches := by simp [fetches_eq]
      exact absurd ((only last last_mem k asked).trans (only f f_mem h mem).symm) other

end Proxy

namespace Sample

open Negotiation

def uniform (byte : UInt8) : Digest :=
  ⟨.sha512, .replicate 64 byte, List.length_replicate⟩

def citingOffer : Message := offerCiting (uniform 0) (uniform 1)

theorem citing_fetches : ∃ f after,
    (citingProxy.receive relay now citingOffer).fetches = f :: after := by
  obtain ⟨event, q, accepts⟩ := citing_accepts (uniform 0) (uniform 1)
  refine List.exists_cons_of_ne_nil fun nothing => ?_
  have named (byte : UInt8) (refers : uniform byte ∈ citingOffer.references) :
      Digest.of .sha512 citingOffer.canonicalBytes = uniform byte := by
    have accepted : q.settings.accepts .sha512 = true := by
      obtain ⟨register, changed, bank, -, rfl⟩ := accepts.stored
      have accepted : settings.accepts .sha512 = true := by decide
      exact accepted
    obtain ⟨d, found⟩ := accepts.known nothing refers accepted
    obtain before | ⟨-, named⟩ := accepts.found (Bank.placed_empty _) found
    · cases before
    · exact (Digest.verifies_iff _ _).1 named
  have references_eq : citingOffer.references = [uniform 0, uniform 1] :=
    references_offerCiting (uniform 0) (uniform 1)
  have same := (named 0 (by simp [references_eq])).symm.trans (named 1 (by simp [references_eq]))
  exact absurd same (by decide)

theorem citing_asks : ∃ event q f after,
    citingProxy.Accepts now citingOffer (buying 7).second event q ∧
    (citingProxy.receive relay now citingOffer).fetches = [] ++ f :: after ∧
    Proxy.Asks relay (buying 7).second citingOffer q (citingProxy.receive relay now citingOffer) [] f
      after := by
  obtain ⟨event, q, accepts⟩ := citing_accepts (uniform 0) (uniform 1)
  obtain ⟨f, after, fetches_eq⟩ := citing_fetches
  exact ⟨event, q, f, after, accepts, fetches_eq,
    Proxy.resolution_asks (buyers_reachable citingTemplates) accepts relay fetches_eq⟩

end Sample

end Parley
