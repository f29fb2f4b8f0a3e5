import Parley.Proofs.Proxy.Archive

namespace Parley

namespace Bank

variable {a : HashAlgorithm} {others : List HashAlgorithm} {b : Bank} {l : Ledger} {d : Message}
variable {ds : List Message} {e : Error}

theorem eraseDups_of_nodup {α : Type} [BEq α] [LawfulBEq α] {xs : List α} (nodup : xs.Nodup) :
    xs.eraseDups = xs := by
  induction xs with
  | nil => rfl
  | cons x xs ih =>
    obtain ⟨fresh, nodup⟩ := List.nodup_cons.1 nodup
    have same : xs.filter (fun y => !y == x) = xs := by
      refine List.filter_eq_self.2 fun y mem => ?_
      simpa using fun y_eq : y = x => fresh (y_eq ▸ mem)
    rw [List.eraseDups_cons, same, ih nodup]

theorem Mirrors.keepFetched (mirrors : Mirrors Digest.of a others b l)
    (separates : Ledger.Separates Digest.of (a :: others) (l.stored ++ ds)) :
    Mirrors Digest.of a others (b.keepFetched ds) ⟨(l.stored ++ ds).eraseDups, l.committed⟩ := by
  obtain ⟨-, ledger_eq⟩ := Ledger.keepAll_of_separates (ds.map fun d => ⟨d, false⟩)
    (eraseDups_of_nodup mirrors.nodup).symm (eraseDups_of_nodup mirrors.committed_nodup).symm
    (by simpa [Function.comp_def] using separates)
  obtain ⟨-, after⟩ := mirrors.keepAll (ds.map fun d => ⟨d, false⟩)
  rw [ledger_eq] at after
  unfold Bank.keepFetched
  simpa [List.filter_map, Function.comp_def, eraseDups_of_nodup mirrors.committed_nodup] using after

theorem Mirrors.addFetched_ne_error (mirrors : Mirrors Digest.of a others b l)
    (separates : Ledger.Separates Digest.of (a :: others) (l.stored ++ [d])) :
    b.addFetched d ≠ .error e := by
  intro failed
  obtain ⟨result_eq, -⟩ := mirrors.keep ⟨d, false⟩
  obtain ⟨⟨changed, done⟩, -⟩ := Ledger.keep_of_separates (d := ⟨d, false⟩)
    (eraseDups_of_nodup mirrors.nodup).symm (eraseDups_of_nodup mirrors.committed_nodup).symm separates
  rw [keep_of_error (d := ⟨d, false⟩) failed, done] at result_eq
  cases result_eq

end Bank

namespace Proxy

variable {p q : Proxy} {m d d' : Message} {h k : Digest} {r : MemoryRelay} {whom : Party}
variable {published taken : List Message} {batch requested next : List Digest} {o : Outcome Unit}
variable {now : Instant} {event : Event}

/-- The digests a resolution is after: those under accepted algorithms that name nothing yet, and that
the message refers to or a published definition that is named by such a digest itself. -/
inductive Wanted (q : Proxy) (m : Message) (published : List Message) : Digest → Prop
  | direct {h : Digest} (refers : h ∈ m.references) (accepted : q.settings.accepts h.algorithm = true)
    (unknown : q.bank.get? h = none) : Wanted q m published h
  | through {h k : Digest} {d : Message} (wanted : Wanted q m published k) (mem : d ∈ published)
    (named : k.verifies d.canonicalBytes = true) (refers : h ∈ d.references)
    (accepted : q.settings.accepts h.algorithm = true) (unknown : q.bank.get? h = none) :
    Wanted q m published h

theorem Wanted.accepted (wanted : Wanted q m published h) : q.settings.accepts h.algorithm = true := by
  cases wanted <;> assumption

theorem Wanted.unknown (wanted : Wanted q m published h) : q.bank.get? h = none := by
  cases wanted <;> assumption

def referable (q : Proxy) (ms : List Message) : List Digest :=
  ((ms.flatMap Message.references).filter fun h => q.settings.accepts h.algorithm).dedup

theorem Wanted.mem_referable (wanted : Wanted q m published h) : h ∈ q.referable (m :: published) := by
  unfold referable
  rw [List.mem_dedup, List.mem_filter]
  refine ⟨List.mem_flatMap.2 ?_, wanted.accepted⟩
  cases wanted with
  | direct refers accepted unknown => exact ⟨m, List.mem_cons_self, refers⟩
  | through wanted mem named refers accepted unknown => exact ⟨_, List.mem_cons_of_mem _ mem, refers⟩

def Reaches (q : Proxy) (m : Message) (published : List Message) (d : Message) : Prop :=
  d ∈ published ∧ ∃ h, Wanted q m published h ∧ h.verifies d.canonicalBytes = true

structure Distinct (q : Proxy) (published : List Message) (a : HashAlgorithm) (others : List HashAlgorithm)
    (l : Ledger) : Prop where
  accepted_eq : q.settings.accepted = a :: others
  mirrors : q.bank.Mirrors Digest.of a others l
  separates : Ledger.Separates Digest.of (a :: others) (l.stored ++ published)

section

variable {a : HashAlgorithm} {others : List HashAlgorithm} {l : Ledger}

theorem Distinct.mem_names (distinct : Distinct q published a others l)
    (accepted : q.settings.accepts h.algorithm = true) (named : h.verifies d.canonicalBytes = true) :
    h ∈ d.names Digest.of (a :: others) := by
  rw [← (Digest.verifies_iff _ _).1 named]
  refine List.mem_map_of_mem (distinct.accepted_eq ▸ ?_)
  exact List.contains_iff_mem.1 accepted

theorem Distinct.eq_of_verifies (distinct : Distinct q published a others l)
    (accepted : q.settings.accepts h.algorithm = true) (mem : d ∈ published)
    (named : h.verifies d.canonicalBytes = true) (mem' : d' ∈ l.stored ++ published)
    (named' : h ∈ d'.names Digest.of (a :: others)) : d' = d :=
  distinct.separates d' mem' d (List.mem_append_right _ mem) h named'
    (distinct.mem_names accepted named)

theorem Distinct.gather (distinct : Distinct q published a others l) (subset : taken ⊆ published) :
    (q.gather taken).bank.Mirrors Digest.of a others ⟨(l.stored ++ taken).eraseDups, l.committed⟩ :=
  distinct.mirrors.keepFetched
    (distinct.separates.mono (List.append_subset.2 ⟨List.subset_append_left _ _,
      List.subset_append_of_subset_right _ subset⟩))

theorem Distinct.get?_gather (distinct : Distinct q published a others l) (subset : taken ⊆ published) :
    (q.gather taken).bank.get? h = some d ↔
      q.bank.get? h = some d ∨ d ∈ taken ∧ h ∈ d.names Digest.of (a :: others) := by
  rw [(distinct.gather subset).get?_iff, distinct.mirrors.get?_iff, List.mem_eraseDups, List.mem_append]
  tauto

/-- How far a resolution has come that has taken some definitions: what was asked for is wanted, what
was answered is taken, and what is taken refers to nothing but what was asked for or is known. -/
structure Progress (q : Proxy) (m : Message) (published taken : List Message)
    (batch requested : List Digest) : Prop where
  reached : ∀ d ∈ taken, Reaches q m published d
  wanted : ∀ h ∈ requested, Wanted q m published h
  asked : batch ⊆ requested
  answered : ∀ h ∈ requested, h ∈ batch ∨ ∀ d ∈ published, h.verifies d.canonicalBytes = true → d ∈ taken
  closed : ∀ d, d = m ∨ d ∈ taken → ∀ h ∈ d.references, q.settings.accepts h.algorithm = true →
    h ∈ requested ∨ ∃ d', (q.gather taken).bank.get? h = some d'

theorem Progress.subset (progress : Progress q m published taken batch requested) : taken ⊆ published :=
  fun d mem => (progress.reached d mem).1

theorem wanted_progress (q : Proxy) (m : Message) (published : List Message) :
    Progress q m published [] (q.wanted m []).1 (q.wanted m []).2 := by
  have follows := q.wanted_follows m []
  have requested_eq : ∀ h, h ∈ (q.wanted m []).2 ↔ h ∈ (q.wanted m []).1 := by
    simp [follows.requested_eq]
  exact {
    reached := by simp
    wanted := fun h mem => by
      rw [requested_eq] at mem
      obtain ⟨d, refers_from, refers⟩ := follows.referenced h mem
      obtain rfl := List.mem_singleton.1 refers_from
      exact .direct refers (follows.accepted h mem) (follows.unknown h mem)
    asked := fun h mem => (requested_eq h).2 mem
    answered := fun h mem => .inl ((requested_eq h).1 mem)
    closed := fun d mem h refers accepted => by
      refine follows.complete d ?_ h refers accepted
      simpa using mem }

theorem mem_find : d ∈ r.find batch ↔
    ∃ h ∈ batch, r.published.find? (fun d => h.verifies d.canonicalBytes) = some d :=
  List.mem_filterMap

theorem verifies_of_find? (found : published.find? (fun d => h.verifies d.canonicalBytes) = some d) :
    d ∈ published ∧ h.verifies d.canonicalBytes = true := by
  have named := List.find?_some found
  exact ⟨List.mem_of_find?_eq_some found, named⟩

theorem of_mem_find (mem : d ∈ r.find batch) :
    d ∈ r.published ∧ ∃ h ∈ batch, h.verifies d.canonicalBytes = true := by
  obtain ⟨h, asked, found⟩ := mem_find.1 mem
  obtain ⟨there, named⟩ := verifies_of_find? found
  exact ⟨there, h, asked, named⟩

theorem filter_find (r : MemoryRelay) (batch : List Digest) :
    (r.find batch).filter (·.answers batch) = r.find batch :=
  List.filter_eq_self.2 fun _ mem => List.any_eq_true.2 (of_mem_find mem).2

theorem Distinct.mem_find (distinct : Distinct q r.published a others l) (mem : h ∈ batch)
    (accepted : q.settings.accepts h.algorithm = true) (there : d ∈ r.published)
    (named : h.verifies d.canonicalBytes = true) : d ∈ r.find batch := by
  cases found : r.published.find? (fun d => h.verifies d.canonicalBytes) with
  | none =>
    have other := List.find?_eq_none.1 found d there
    exact absurd named other
  | some d' =>
    obtain ⟨there', named'⟩ := verifies_of_find? found
    obtain rfl := distinct.eq_of_verifies accepted there named (List.mem_append_right _ there')
      (distinct.mem_names accepted named')
    exact Proxy.mem_find.2 ⟨h, mem, found⟩

theorem Progress.step {requested' : List Digest}
    (progress : Progress q m r.published taken batch requested)
    (distinct : Distinct q r.published a others l)
    (follows : Follows (q.gather taken) (q.gather (taken ++ r.find batch)) (r.find batch) requested next
      requested') : Progress q m r.published (taken ++ r.find batch) next requested' := by
  have grown : ∀ {h d}, (q.gather taken).bank.get? h = some d →
      (q.gather (taken ++ r.find batch)).bank.get? h = some d := by
    rw [gather_append]
    exact fun found => (gather_fetches _ _).grows.get? found
  have reached : ∀ d ∈ r.find batch, Reaches q m r.published d := fun d mem => by
    obtain ⟨there, h, asked, named⟩ := of_mem_find mem
    exact ⟨there, h, progress.wanted h (progress.asked asked), named⟩
  have mem_requested : ∀ h, h ∈ requested' ↔ h ∈ next ∨ h ∈ requested := fun h => by
    simp [follows.requested_eq]
  exact {
    reached := List.forall_mem_append.2 ⟨progress.reached, reached⟩
    wanted := fun h mem => by
      obtain new | old := (mem_requested h).1 mem
      · obtain ⟨d, came, refers⟩ := follows.referenced h new
        obtain ⟨there, k, wanted, named⟩ := reached d came
        have unknown := unknown_of_fetches (gather_fetches q taken) (follows.unknown h new)
        exact .through wanted there named refers (follows.accepted h new) unknown
      · exact progress.wanted h old
    asked := fun h mem => (mem_requested h).2 (.inl mem)
    answered := fun h mem => by
      refine ((mem_requested h).1 mem).imp_right fun old d there named => ?_
      obtain asked | taken := progress.answered h old
      · have accepted := (progress.wanted h old).accepted
        exact List.mem_append_right _ (distinct.mem_find asked accepted there named)
      · exact List.mem_append_left _ (taken d there named)
    closed := fun d mem h refers accepted => by
      rw [List.mem_append, ← or_assoc] at mem
      obtain old | new := mem
      · exact (progress.closed d old h refers accepted).imp
          (fun asked => (mem_requested h).2 (.inr asked)) fun ⟨d', found⟩ => ⟨d', grown found⟩
      · exact follows.complete d new h refers accepted }

theorem Progress.complete (progress : Progress q m published taken [] requested)
    (distinct : Distinct q published a others l) (wanted : Wanted q m published h) :
    ∀ d ∈ published, h.verifies d.canonicalBytes = true → d ∈ taken := by
  -- what was asked for is taken, and so is what has come to be known
  have named : ∀ h, q.settings.accepts h.algorithm = true → q.bank.get? h = none →
      (h ∈ requested ∨ ∃ d', (q.gather taken).bank.get? h = some d') →
      ∀ d ∈ published, h.verifies d.canonicalBytes = true → d ∈ taken := by
    rintro h accepted unknown (asked | ⟨d', known⟩) d there verifies
    · exact (progress.answered h asked).resolve_left List.not_mem_nil d there verifies
    · obtain before | ⟨mem, named'⟩ := (distinct.get?_gather progress.subset).1 known
      · rw [unknown] at before
        cases before
      · have there' := List.mem_append_right l.stored (progress.subset mem)
        exact distinct.eq_of_verifies accepted there verifies there' named' ▸ mem
  induction wanted with
  | direct refers accepted unknown =>
    exact named _ accepted unknown (progress.closed m (.inl rfl) _ refers accepted)
  | through wanted there verifies refers accepted unknown ih =>
    exact named _ accepted unknown
      (progress.closed _ (.inr (ih _ there verifies)) _ refers accepted)

theorem Resolves.progress (resolves : Resolves r.answers whom p batch requested o)
    (online : r.offline = false) (distinct : Distinct q r.published a others l)
    (here : p = q.gather taken) (progress : Progress q m r.published taken batch requested) :
    o.result = .ok () ∧ (∀ f ∈ o.fetches, f.hashes ≠ [] ∧ ∀ h ∈ f.hashes, Wanted q m r.published h) ∧
      ∃ taken' requested', o.proxy = q.gather taken' ∧ Progress q m r.published taken' [] requested' := by
  have fetch_eq : ∀ batch, r.answers.fetch batch whom = .ok (r.find batch) := fun batch => by
    simp [MemoryRelay.answers, MemoryRelay.checkOnline, online, Except.map]
  -- on the rounds that are left, for whatever was taken in those before
  induction resolves generalizing taken with
  | done => exact ⟨rfl, by simp [Outcome.quiet], taken, _, here, progress⟩
  | cut some_wanted failed =>
    rw [fetch_eq] at failed
    cases failed
  | clash some_wanted answered took =>
    rw [fetch_eq] at answered
    cases answered
    subst here
    obtain ⟨more, d, before, p'_eq, failed⟩ := takeFetched_eq_error took
    rw [filter_find] at before
    have subset : taken ++ more ++ [d] ⊆ r.published := by
      rw [List.append_assoc]
      exact List.append_subset.2 ⟨progress.subset, fun d mem => (of_mem_find (before.subset mem)).1⟩
    rw [p'_eq, ← gather_append] at failed
    have mirrors := distinct.gather (List.append_subset.1 subset).1
    refine absurd failed (mirrors.addFetched_ne_error (distinct.separates.mono fun d' mem => ?_))
    have mem' : d' ∈ l.stored ++ (taken ++ more ++ [d]) := by simpa [or_assoc] using mem
    exact (List.mem_append.1 mem').elim (List.mem_append_left _)
      fun new => List.mem_append_right _ (subset new)
  | next some_wanted answered took rest ih =>
    rw [fetch_eq] at answered
    cases answered
    subst here
    obtain ⟨p'_eq, follows⟩ := takeFetched_eq_ok took
    rw [filter_find, ← gather_append] at p'_eq
    rw [filter_find, p'_eq] at follows
    obtain ⟨result_eq, fetches, last⟩ := ih p'_eq (progress.step distinct follows)
    refine ⟨result_eq, List.forall_mem_cons.2 ⟨⟨some_wanted, fun h mem => ?_⟩, fetches⟩, last⟩
    exact progress.wanted h (progress.asked mem)

/-- That a resolution ended and brought all that can be reached from the message, and nothing else. -/
structure Closes (q : Proxy) (m : Message) (r : MemoryRelay) (whom : Party) (o : Outcome Unit) : Prop where
  result_eq : o.result = .ok ()
  rounds_le : o.fetches.length ≤ (q.referable (m :: r.published)).length
  resolve_eq : ∀ rounds, (q.referable (m :: r.published)).length ≤ rounds →
    resolve r.answers whom rounds q (q.wanted m []).1 (q.wanted m []).2 = o
  stored : ∃ new, o.proxy.bank.definitions = q.bank.definitions ++ new ∧ new.Nodup ∧
    ∀ d, d ∈ new ↔ Reaches q m r.published d
  named : ∀ h d, o.proxy.bank.get? h = some d ↔ q.bank.get? h = some d ∨
    Reaches q m r.published d ∧ h ∈ d.names Digest.of q.settings.accepted

theorem length_fetches_le {fetches : List Fetch} {hs : List Digest}
    (once : (fetches.flatMap (·.hashes)).Nodup) (some_wanted : ∀ f ∈ fetches, f.hashes ≠ [])
    (subset : ∀ f ∈ fetches, f.hashes ⊆ hs) : fetches.length ≤ hs.length := by
  have longer : fetches.length ≤ (fetches.flatMap (·.hashes)).length := by
    clear once subset
    induction fetches with
    | nil => exact Nat.le_refl _
    | cons f rest ih =>
      obtain ⟨here, later⟩ := List.forall_mem_cons.1 some_wanted
      have := List.length_pos_iff.2 here
      have := ih later
      rw [List.flatMap_cons, List.length_append, List.length_cons]
      omega
  have all : fetches.flatMap (·.hashes) ⊆ hs := fun h mem => by
    obtain ⟨f, mem, asked⟩ := List.mem_flatMap.1 mem
    exact subset f mem asked
  exact longer.trans (once.subperm all).length_le

theorem Distinct.not_stored (distinct : Distinct q published a others l) (reaches : Reaches q m published d) :
    d ∉ q.bank.definitions := by
  obtain ⟨-, h, wanted, named⟩ := reaches
  intro stored
  rw [distinct.mirrors.definitions_eq] at stored
  have found := distinct.mirrors.get?_iff.2 ⟨stored, distinct.mem_names wanted.accepted named⟩
  rw [wanted.unknown] at found
  cases found

theorem Distinct.closes (distinct : Distinct q r.published a others l) (online : r.offline = false)
    (m : Message) (whom : Party) : Closes q m r whom (q.resolveReferences r.answers m whom) := by
  have resolves := resolveReferences_resolves r.answers q m whom
  have first := q.wanted_follows m []
  obtain ⟨result_eq, fetches, taken, requested, proxy_eq, progress⟩ :=
    resolves.progress online distinct (gather_nil q).symm (wanted_progress q m r.published)
  have taken_iff : ∀ d, d ∈ taken ↔ Reaches q m r.published d := fun d =>
    ⟨progress.reached d, fun ⟨there, h, wanted, named⟩ => progress.complete distinct wanted d there named⟩
  have rounds_le : (q.resolveReferences r.answers m whom).fetches.length ≤
      (q.referable (m :: r.published)).length :=
    length_fetches_le (resolves.once first.nodup (by simp [first.requested_eq])).1
      (fun f mem => (fetches f mem).1) fun f mem h asked => ((fetches f mem).2 h asked).mem_referable
  have mirrors := distinct.gather progress.subset
  refine ⟨result_eq, rounds_le, fun rounds enough => resolves.resolve_eq (rounds_le.trans enough), ?_,
    fun h d => ?_⟩
  · obtain ⟨new, definitions_eq, subset⟩ := q.bank.keepFetched_definitions taken
    have all : q.bank.definitions ++ new = (l.stored ++ taken).eraseDups :=
      definitions_eq.symm.trans mirrors.definitions_eq
    have nodup : (q.bank.definitions ++ new).Nodup := all ▸ mirrors.nodup
    refine ⟨new, by rw [proxy_eq]; exact definitions_eq, (List.nodup_append.1 nodup).2.1, fun d => ?_⟩
    rw [← taken_iff]
    refine ⟨fun mem => subset mem, fun mem => ?_⟩
    have stored : d ∈ q.bank.definitions ++ new := by
      rw [all, List.mem_eraseDups]
      exact List.mem_append_right _ mem
    exact (List.mem_append.1 stored).resolve_left (distinct.not_stored ((taken_iff d).1 mem))
  · rw [proxy_eq, distinct.get?_gather progress.subset, taken_iff, distinct.accepted_eq]

end

theorem closes_of_none (accepted_eq : q.settings.accepted = []) (m : Message) (r : MemoryRelay)
    (whom : Party) : Closes q m r whom (q.resolveReferences r.answers m whom) := by
  have refused : ∀ h : Digest, q.settings.accepts h.algorithm ≠ true := fun h => by
    simp [Settings.accepts, accepted_eq]
  have nothing : ∀ d, ¬ Reaches q m r.published d := by
    rintro d ⟨-, h, wanted, -⟩
    exact refused h wanted.accepted
  have batch_eq : (q.wanted m []).1 = [] := List.eq_nil_iff_forall_not_mem.2 fun h mem =>
    refused h ((q.wanted_follows m []).accepted h mem)
  have quiet : ∀ rounds requested, resolve r.answers whom rounds q (q.wanted m []).1 requested =
      .quiet q (.ok ()) := fun rounds requested => by rw [batch_eq, resolve_nil]
  unfold resolveReferences
  dsimp only
  rw [quiet]
  exact ⟨rfl, Nat.zero_le _, fun rounds _ => quiet rounds _,
    ⟨[], by simp [Outcome.quiet], .nil, by simpa using nothing⟩, fun h d => by
      simp [Outcome.quiet, nothing]⟩

theorem Reachable.bank_eq (reachable : p.Reachable) :
    ∃ ds, p.bank = ((Bank.empty p.settings.accepted).keepAll Digest.of ds).2 := by
  obtain ⟨parties, ps, templates, s, held, ids, calls, built, made⟩ := reachable
  have first := Reachable.run parties ps templates s held ids [] built made
  rw [run_nil] at first
  obtain ⟨ds, takes⟩ := run_takes first.standing calls
  refine ⟨ds, ?_⟩
  rw [takes.bank_eq, (first.basis_run calls).settings_eq]
  rfl

theorem Accepts.bank_eq (accepts : p.Accepts now m whom event q) (reachable : p.Reachable) :
    ∃ ds, q.bank = ((Bank.empty q.settings.accepted).keepAll Digest.of ds).2 := by
  obtain ⟨ds, bank_eq⟩ := reachable.bank_eq
  obtain ⟨register, changed, bank, added, rfl⟩ := accepts.stored
  refine ⟨ds ++ [⟨m, true⟩], ?_⟩
  rw [Bank.keepAll_append, ← bank_eq]
  exact (congrArg Prod.snd (Bank.keep_of_ok (d := ⟨m, true⟩) added)).symm

/-- A resolution at a relay that serves what was published ends after as many rounds as there are
digests to ask for, or before, and brings exactly what can be reached from the message. -/
theorem resolution_closes (reachable : p.Reachable) (accepts : p.Accepts now m whom event q)
    (r : MemoryRelay) (online : r.offline = false)
    (precise : ∀ d ∈ q.bank.definitions ++ r.published, d.Precise)
    (apart : q.settings.TellsApart (q.bank.definitions ++ r.published)) :
    p.receive r.answers now m = { q.resolveReferences r.answers m whom with events := [event] } ∧
      Closes q m r whom (q.resolveReferences r.answers m whom) := by
  refine ⟨accepts.receive_resolves r.answers, ?_⟩
  obtain ⟨ds, bank_eq⟩ := accepts.bank_eq reachable
  cases accepted_eq : q.settings.accepted with
  | nil => exact closes_of_none accepted_eq m r whom
  | cons a others =>
    have separates := apart.separates precise
    rw [accepted_eq] at separates bank_eq
    obtain ⟨-, mirrors⟩ := (Bank.mirrors_empty Digest.of a others).keepAll ds
    rw [← bank_eq] at mirrors
    have distinct : Distinct q r.published a others
        (Ledger.empty.keepAll Digest.of (a :: others) ds).2 :=
      ⟨accepted_eq, mirrors, mirrors.definitions_eq ▸ separates⟩
    exact distinct.closes online m whom

end Proxy

namespace Sample

open Negotiation

def library (d : Message) : MemoryRelay := MemoryRelay.empty.publish d

theorem framed_precise : framed.Precise := by
  have instants : now.canonical.carried = now.canonical ∧
      yearEnd.canonical.carried = yearEnd.canonical := by decide
  have signed := Signature.carried_unsigned (t := now) (by decide) .ed25519
  unfold framed offerCiting
  refine Message.Precise.sign ?_ _ _
  simp only [Message.Precise, Message.carried, instants.1, instants.2, signed]

variable {d : Message} {q : Proxy} {event : Event}

theorem framed_occurs (accepts : citingProxy.Accepts now framed (buying 7).second event q) :
    ∀ d' ∈ q.bank.definitions ++ (library d).published, d' = framed ∨ d' = d := by
  obtain ⟨register, changed, bank, added, rfl⟩ := accepts.stored
  intro d' mem
  obtain stored | published := List.mem_append.1 mem
  · obtain same | added := Bank.store_definitions added
    · rw [same] at stored
      cases stored
    · rw [added] at stored
      exact .inl (List.mem_singleton.1 stored)
  · exact .inr (List.mem_singleton.1 published)

theorem framed_tellsApart (accepts : citingProxy.Accepts now framed (buying 7).second event q)
    (other : nameOf framed ≠ nameOf d) :
    q.settings.TellsApart (q.bank.definitions ++ (library d).published) := by
  intro d' mem d'' mem' a accepted same
  rw [(framed_accepted accepts).1, List.mem_singleton] at accepted
  subst accepted
  obtain rfl | rfl := framed_occurs accepts d' mem <;>
    obtain rfl | rfl := framed_occurs accepts d'' mem'
  · rfl
  · exact absurd same other
  · exact absurd same.symm other
  · rfl

theorem framed_closes : ∃ d event q, (d = frame 1 ∨ d = frame 2) ∧
    citingProxy.Accepts now framed (buying 7).second event q ∧ q.bank.get? (nameOf d) = none ∧
    (library d).offline = false ∧ (∀ d' ∈ q.bank.definitions ++ (library d).published, d'.Precise) ∧
    q.settings.TellsApart (q.bank.definitions ++ (library d).published) ∧
    Proxy.Closes q framed (library d) (buying 7).second
      (q.resolveReferences (library d).answers framed (buying 7).second) ∧
    (q.resolveReferences (library d).answers framed (buying 7).second).proxy.bank.get? (nameOf d) =
      some d := by
  obtain ⟨d, known, other⟩ := exists_frame
  obtain ⟨event, q, accepts⟩ := framed_accepts
  have unknown := framed_unknown accepts other
  have precise : ∀ d' ∈ q.bank.definitions ++ (library d).published, d'.Precise := fun d' mem => by
    obtain rfl | rfl := framed_occurs accepts d' mem
    · exact framed_precise
    · obtain rfl | rfl := known <;> decide
  have apart := framed_tellsApart accepts other
  obtain ⟨-, closes⟩ :=
    Proxy.resolution_closes (buyers_reachable citingTemplates) accepts (library d) rfl precise apart
  have wanted : Proxy.Wanted q framed (library d).published (nameOf d) :=
    .direct (nameOf_mem_references known) (framed_accepts_sha512 accepts) unknown
  have reaches : Proxy.Reaches q framed (library d).published d :=
    ⟨List.mem_singleton.2 rfl, nameOf d, wanted, (Digest.verifies_iff _ _).2 rfl⟩
  have named : nameOf d ∈ d.names Digest.of q.settings.accepted := by
    rw [(framed_accepted accepts).1]
    exact List.mem_map.2 ⟨.sha512, List.mem_singleton_self _, rfl⟩
  exact ⟨d, event, q, known, accepts, unknown, rfl, precise, apart, closes,
    (closes.named (nameOf d) d).2 (.inr ⟨reaches, named⟩)⟩

end Sample

end Parley
