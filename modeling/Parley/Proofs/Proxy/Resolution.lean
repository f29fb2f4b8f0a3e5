import Mathlib.Data.Nat.Digits.Lemmas
import Parley.Proofs.Digest
import Parley.Proofs.Ledger
import Parley.Proofs.Proxy.Refusal

/-!
# Resolving references

After a message was committed, the definitions it refers to are fetched from its sender, and those
they refer to in turn. The sender may answer anything. What is asked for and what is kept of the
answers is held to digests that were referred to before, and no digest is asked for twice, so the
resolution ends.
-/

namespace Parley

namespace Digest

def number (h : Digest) : Nat :=
  256 ^ 64 * h.algorithm.rank + Nat.ofDigits 256 (h.sum.map UInt8.toNat)

theorem ofDigits_lt (h : Digest) : Nat.ofDigits 256 (h.sum.map UInt8.toNat) < 256 ^ 64 := by
  have size_le : h.algorithm.size ≤ 64 := by cases h.algorithm <;> decide
  have lt := Nat.ofDigits_lt_base_pow_length (b := 256) (l := h.sum.map UInt8.toNat) (by decide)
    fun d mem => by
      obtain ⟨byte, -, rfl⟩ := List.mem_map.1 mem
      exact byte.toNat_lt
  rw [List.length_map, h.length_sum] at lt
  exact Nat.lt_of_lt_of_le lt (Nat.pow_le_pow_right (by decide) size_le)

theorem number_injective : Function.Injective number := by
  intro h k same
  have positive : 0 < 256 ^ 64 := Nat.pow_pos (by decide)
  have rank_eq : h.algorithm.rank = k.algorithm.rank := by
    have quotient := congrArg (· / 256 ^ 64) same
    simpa only [number, Nat.mul_add_div positive, Nat.div_eq_of_lt (ofDigits_lt _), Nat.add_zero]
      using quotient
  have algorithm_eq : h.algorithm = k.algorithm := by
    revert rank_eq
    cases h.algorithm <;> cases k.algorithm <;> decide
  have value_eq : Nat.ofDigits 256 (h.sum.map UInt8.toNat) =
      Nat.ofDigits 256 (k.sum.map UInt8.toNat) := by
    unfold number at same
    rw [rank_eq] at same
    exact Nat.add_left_cancel same
  have digits : ∀ sum : List UInt8, ∀ d ∈ sum.map UInt8.toNat, d < 256 := fun sum d mem => by
    obtain ⟨byte, -, rfl⟩ := List.mem_map.1 mem
    exact byte.toNat_lt
  have length_eq : (h.sum.map UInt8.toNat).length = (k.sum.map UInt8.toNat).length := by
    rw [List.length_map, List.length_map, h.length_sum, k.length_sum, algorithm_eq]
  have sum_eq : h.sum = k.sum := by
    refine List.map_injective_iff.2 (fun _ _ => UInt8.toNat_inj.1) ?_
    exact Nat.ofDigits_inj_of_len_eq (by decide) length_eq (digits _) (digits _) value_eq
  obtain ⟨algorithm, sum, length_sum⟩ := h
  obtain rfl : algorithm = k.algorithm := algorithm_eq
  obtain rfl : sum = k.sum := sum_eq
  rfl

theorem number_lt (h : Digest) : h.number < Proxy.maxRounds := by
  have lt := h.ofDigits_lt
  have rank_lt : h.algorithm.rank ≤ 3 := by cases h.algorithm <;> decide
  have le : 256 ^ 64 * h.algorithm.rank ≤ 256 ^ 64 * 3 := Nat.mul_le_mul_left _ rank_lt
  have rounds_eq : Proxy.maxRounds = 4 * 256 ^ 64 := rfl
  rw [rounds_eq, number]
  generalize 256 ^ 64 = base at lt le ⊢
  omega

theorem length_le_maxRounds {hs : List Digest} (nodup : hs.Nodup) : hs.length ≤ Proxy.maxRounds := by
  have subset : hs.map number ⊆ List.range Proxy.maxRounds := fun n mem => by
    obtain ⟨h, -, rfl⟩ := List.mem_map.1 mem
    exact List.mem_range.2 h.number_lt
  have le := ((nodup.map number_injective).subperm subset).length_le
  rwa [List.length_map, List.length_range] at le

end Digest

namespace Bank

variable {b : Bank} {ds : List Message} {h : Digest} {m : Message}

def keepFetched (b : Bank) (ds : List Message) : Bank :=
  (b.keepAll Digest.of (ds.map fun d => ⟨d, false⟩)).2

theorem keepFetched_cons (d : Message) (ds : List Message) :
    b.keepFetched (d :: ds) = (b.keep Digest.of ⟨d, false⟩).2.keepFetched ds :=
  rfl

theorem keepFetched_append (ds es : List Message) :
    b.keepFetched (ds ++ es) = (b.keepFetched ds).keepFetched es := by
  unfold keepFetched
  rw [List.map_append, keepAll_append]

theorem keepFetched_grows (b : Bank) (ds : List Message) : b.Grows (b.keepFetched ds) :=
  keepAll_grows _ _ _

theorem listings_keepFetched (b : Bank) (ds : List Message) : (b.keepFetched ds).listings = b.listings := by
  induction ds generalizing b with
  | nil => rfl
  | cons d ds ih =>
    rw [keepFetched_cons, ih]
    obtain ⟨h, -, kept⟩ | ⟨changed, b', stored, kept⟩ := keep_cases Digest.of b ⟨d, false⟩ <;> rw [kept]
    exact (addFetched_eq_ok stored).2

theorem verifies_of_mem_names {accepted : List HashAlgorithm} (named : h ∈ m.names Digest.of accepted) :
    h.verifies m.canonicalBytes = true := by
  obtain ⟨a, -, rfl⟩ := List.mem_map.1 named
  exact (Digest.verifies_iff _ _).2 rfl

theorem keepFetched_origin (placed : b.Placed) (found : (b.keepFetched ds).get? h = some m) :
    b.get? h = some m ∨ m ∈ ds ∧ h.verifies m.canonicalBytes = true := by
  refine (keepAll_origin placed found).imp_right fun ⟨⟨deposit, given, same⟩, named⟩ => ⟨?_, ?_⟩
  · obtain ⟨d, mem, rfl⟩ := List.mem_map.1 given
    exact same ▸ mem
  · exact verifies_of_mem_names named

theorem keepFetched_definitions (b : Bank) (ds : List Message) : ∃ new,
    (b.keepFetched ds).definitions = b.definitions ++ new ∧ new ⊆ ds := by
  obtain ⟨new, definitions_eq, origin⟩ := b.keepAll_definitions Digest.of
    (ds.map fun d => ⟨d, false⟩)
  refine ⟨new, definitions_eq, fun m mem => ?_⟩
  obtain ⟨deposit, given, same⟩ := origin m mem
  obtain ⟨d, mem, rfl⟩ := List.mem_map.1 given
  exact same ▸ mem

theorem keepFetched_of_addFetched {changed : Bool} {b' : Bank} (added : b.addFetched m = .ok (changed, b')) :
    b.keepFetched [m] = b' :=
  congrArg Prod.snd (keep_of_ok (d := ⟨m, false⟩) added)

end Bank

def Message.answers (batch : List Digest) (d : Message) : Bool :=
  batch.any fun h => h.verifies d.canonicalBytes

def Relay.returned (relay : Relay) (whom : Party) (f : Fetch) : List Message :=
  match relay.fetch f.hashes whom with
  | .error _ => []
  | .ok fetched => fetched

/-- That a definition came back from one of some fetches and is named by a digest it asked for. -/
def Relay.Answered (relay : Relay) (whom : Party) (fetches : List Fetch) (d : Message) : Prop :=
  ∃ f ∈ fetches, d ∈ relay.returned whom f ∧ ∃ h ∈ f.hashes, h.verifies d.canonicalBytes = true

namespace Proxy

variable {p p' p₁ p₂ q : Proxy} {m : Message} {ds es fetched taken : List Message}
variable {batch next next' requested requested' r₁ r₂ : List Digest} {h : Digest} {e : Error}
variable {relay : Relay} {whom : Party} {o : Outcome Unit} {now : Instant}

/-- That `next` are the digests to ask for next: those under accepted algorithms that some
definitions refer to, that are not in the bank and that were not asked for before. -/
structure Follows (p p' : Proxy) (ds : List Message) (requested next requested' : List Digest) :
    Prop where
  requested_eq : requested' = next.reverse ++ requested
  nodup : next.Nodup
  fresh : ∀ h ∈ next, h ∉ requested
  accepted : ∀ h ∈ next, p.settings.accepts h.algorithm = true
  unknown : ∀ h ∈ next, p.bank.get? h = none
  referenced : ∀ h ∈ next, ∃ d ∈ ds, h ∈ d.references
  complete : ∀ d ∈ ds, ∀ h ∈ d.references, p.settings.accepts h.algorithm = true →
    h ∈ requested' ∨ ∃ d', p'.bank.get? h = some d'

theorem Follows.nil : Follows p p' [] requested [] requested where
  requested_eq := rfl
  nodup := .nil
  fresh h mem := by cases mem
  accepted h mem := by cases mem
  unknown h mem := by cases mem
  referenced h mem := by cases mem
  complete d mem := by cases mem

theorem unknown_of_fetches (fetches : Fetches p p₁) (unknown : p₁.bank.get? h = none) :
    p.bank.get? h = none := by
  cases found : p.bank.get? h with
  | none => rfl
  | some d =>
    rw [fetches.grows.get? found] at unknown
    cases unknown

theorem Follows.after (follows : Follows p₁ p' ds requested next requested') (fetches : Fetches p p₁) :
    Follows p p' ds requested next requested' := by
  have settings_eq : p₁.settings = p.settings := by
    obtain ⟨bank, rfl⟩ := fetches.bank
    rfl
  exact {
    requested_eq := follows.requested_eq
    nodup := follows.nodup
    fresh := follows.fresh
    accepted := settings_eq ▸ follows.accepted
    unknown := fun h mem => unknown_of_fetches fetches (follows.unknown h mem)
    referenced := follows.referenced
    complete := settings_eq ▸ follows.complete }

theorem Follows.append (first : Follows p p₁ ds requested next r₁)
    (second : Follows p p' es r₁ next' r₂) (fetches : Fetches p₁ p') :
    Follows p p' (ds ++ es) requested (next ++ next') r₂ where
  requested_eq := by
    rw [second.requested_eq, first.requested_eq, List.reverse_append, List.append_assoc]
  nodup := by
    refine List.nodup_append.2 ⟨first.nodup, second.nodup, fun h mem k mem' same => ?_⟩
    subst same
    refine second.fresh h mem' ?_
    rw [first.requested_eq]
    exact List.mem_append_left _ (List.mem_reverse.2 mem)
  fresh h mem := by
    obtain mem | mem := List.mem_append.1 mem
    · exact first.fresh h mem
    · intro before
      refine second.fresh h mem ?_
      rw [first.requested_eq]
      exact List.mem_append_right _ before
  accepted := List.forall_mem_append.2 ⟨first.accepted, second.accepted⟩
  unknown := List.forall_mem_append.2 ⟨first.unknown, second.unknown⟩
  referenced h mem := by
    obtain mem | mem := List.mem_append.1 mem
    · obtain ⟨d, mem, refers⟩ := first.referenced h mem
      exact ⟨d, List.mem_append_left _ mem, refers⟩
    · obtain ⟨d, mem, refers⟩ := second.referenced h mem
      exact ⟨d, List.mem_append_right _ mem, refers⟩
  complete d mem h refers accepted := by
    obtain mem | mem := List.mem_append.1 mem
    · obtain asked | ⟨d', found⟩ := first.complete d mem h refers accepted
      · refine .inl ?_
        rw [second.requested_eq]
        exact List.mem_append_right _ asked
      · exact .inr ⟨d', fetches.grows.get? found⟩
    · exact second.complete d mem h refers accepted

theorem Follows.nodup_requested (follows : Follows p p' ds requested next requested')
    (nodup : requested.Nodup) : requested'.Nodup := by
  rw [follows.requested_eq]
  refine List.nodup_append.2 ⟨List.nodup_reverse.2 follows.nodup, nodup, fun h mem k before same => ?_⟩
  subst same
  exact follows.fresh h (List.mem_reverse.1 mem) before

theorem foldl_wanted (candidates new requested : List Digest) :
    ∃ more, candidates.foldl (fun (new, requested) h =>
        if requested.contains h then (new, requested) else (new ++ [h], h :: requested))
          (new, requested) = (new ++ more, more.reverse ++ requested) ∧
      more.Nodup ∧ (∀ h ∈ more, h ∉ requested) ∧ more ⊆ candidates ∧
      ∀ h ∈ candidates, h ∈ more.reverse ++ requested := by
  induction candidates generalizing new requested with
  | nil => exact ⟨[], by simp, .nil, nofun, List.nil_subset _, nofun⟩
  | cons k rest ih =>
    rw [List.foldl_cons]
    dsimp only
    by_cases asked : requested.contains k = true
    · obtain ⟨more, r_eq, nodup, fresh, subset, complete⟩ := ih new requested
      rw [if_pos asked]
      refine ⟨more, r_eq, nodup, fresh, List.subset_cons_of_subset _ subset, ?_⟩
      refine List.forall_mem_cons.2 ⟨List.mem_append_right _ ?_, complete⟩
      exact List.contains_iff_mem.1 asked
    · obtain ⟨more, r_eq, nodup, fresh, subset, complete⟩ := ih (new ++ [k]) (k :: requested)
      rw [if_neg asked]
      refine ⟨k :: more, by simpa using r_eq, ?_, ?_, ?_, ?_⟩
      · exact List.nodup_cons.2 ⟨fun mem => fresh k mem List.mem_cons_self, nodup⟩
      · refine List.forall_mem_cons.2 ⟨fun mem => asked (List.contains_iff_mem.2 mem), ?_⟩
        exact fun h mem before => fresh h mem (List.mem_cons_of_mem _ before)
      · exact List.cons_subset_cons _ subset
      · refine List.forall_mem_cons.2 ⟨by simp, fun h mem => ?_⟩
        simpa using complete h mem

theorem wanted_follows (p : Proxy) (m : Message) (requested : List Digest) :
    Follows p p [m] requested (p.wanted m requested).1 (p.wanted m requested).2 := by
  have unknown_iff : ∀ h, h ∈ p.bank.unknown (m.references.filter fun h => p.settings.accepts h.algorithm) ↔
      h ∈ m.references ∧ p.settings.accepts h.algorithm = true ∧ p.bank.get? h = none := by
    intro h
    simp only [Bank.unknown, Bank.contains, List.mem_filter, Bool.not_eq_true',
      Option.isSome_eq_false_iff, Option.isNone_iff_eq_none, and_assoc]
  unfold wanted
  dsimp only
  obtain ⟨new, r_eq, nodup, fresh, subset, complete⟩ := foldl_wanted
    (p.bank.unknown (m.references.filter fun h => p.settings.accepts h.algorithm)) [] requested
  rw [r_eq]
  refine ⟨rfl, nodup, fresh, fun h mem => ?_, fun h mem => ?_, fun h mem => ?_, ?_⟩
  · exact ((unknown_iff h).1 (subset mem)).2.1
  · exact ((unknown_iff h).1 (subset mem)).2.2
  · exact ⟨m, List.mem_singleton_self m, ((unknown_iff h).1 (subset mem)).1⟩
  · intro d mem h refers accepted
    rw [List.mem_singleton] at mem
    subst mem
    cases found : p.bank.get? h with
    | none => exact .inl (complete h ((unknown_iff h).2 ⟨refers, accepted, found⟩))
    | some d' => exact .inr ⟨d', rfl⟩

theorem mem_wanted_iff : h ∈ (p.wanted m requested).1 ↔ p.settings.accepts h.algorithm = true ∧
    h ∉ requested ∧ h ∈ m.references ∧ p.bank.get? h = none := by
  have follows := p.wanted_follows m requested
  constructor
  · intro mem
    obtain ⟨d, d_mem, refers⟩ := follows.referenced h mem
    rw [List.mem_singleton.1 d_mem] at refers
    exact ⟨follows.accepted h mem, follows.fresh h mem, refers, follows.unknown h mem⟩
  · rintro ⟨accepted, fresh, refers, unknown⟩
    obtain asked | ⟨d, found⟩ := follows.complete m (List.mem_singleton_self m) h refers accepted
    · rw [follows.requested_eq, List.mem_append, List.mem_reverse] at asked
      exact asked.resolve_right fresh
    · rw [unknown] at found
      cases found

def gather (p : Proxy) (ds : List Message) : Proxy :=
  { p with bank := p.bank.keepFetched ds }

@[simp] theorem gather_nil (p : Proxy) : p.gather [] = p :=
  rfl

theorem gather_append (p : Proxy) (ds es : List Message) :
    p.gather (ds ++ es) = (p.gather ds).gather es := by
  unfold gather
  rw [Bank.keepFetched_append]

theorem gather_of_addFetched {changed : Bool} {bank : Bank}
    (added : p.bank.addFetched m = .ok (changed, bank)) : p.gather [m] = { p with bank } := by
  unfold gather
  rw [Bank.keepFetched_of_addFetched added]

theorem gather_fetches (p : Proxy) (ds : List Message) : Fetches p (p.gather ds) where
  bank := ⟨_, rfl⟩
  grows := p.bank.keepFetched_grows ds
  listings_eq := p.bank.listings_keepFetched ds

theorem takeFetched_cons_eq_ok
    (took : p.takeFetched batch requested (m :: fetched) = (.ok (next, requested'), p')) :
    (m.answers batch = true ∧ ∃ more, next = ((p.gather [m]).wanted m requested).1 ++ more ∧
      (p.gather [m]).takeFetched batch ((p.gather [m]).wanted m requested).2 fetched =
        (.ok (more, requested'), p')) ∨
    (m.answers batch = false ∧
      p.takeFetched batch requested fetched = (.ok (next, requested'), p')) := by
  unfold takeFetched at took
  split at took
  next answers =>
    refine .inl ⟨answers, ?_⟩
    cases added : p.bank.addFetched m with
    | error e =>
      rw [added] at took
      cases took
    | ok r =>
      rw [added] at took
      dsimp only at took
      rw [gather_of_addFetched added]
      split at took
      next more requested'' p'' rest_took =>
        cases took
        exact ⟨more, rfl, rest_took⟩
      · cases took
  next other => exact .inr ⟨Bool.eq_false_iff.2 other, took⟩

theorem takeFetched_eq_ok
    (took : p.takeFetched batch requested fetched = (.ok (next, requested'), p')) :
    p' = p.gather (fetched.filter (·.answers batch)) ∧
      Follows p p' (fetched.filter (·.answers batch)) requested next requested' := by
  induction fetched generalizing p requested next with
  | nil =>
    cases took
    exact ⟨rfl, .nil⟩
  | cons m rest ih =>
    rw [List.filter_cons]
    obtain ⟨answers, more, rfl, rest_took⟩ | ⟨other, rest_took⟩ := takeFetched_cons_eq_ok took
    · obtain ⟨p'_eq, follows⟩ := ih rest_took
      have step := p.gather_fetches [m]
      have last : Fetches (p.gather [m]) p' := p'_eq ▸ gather_fetches _ _
      have first := ((p.gather [m]).wanted_follows m requested).after step
      rw [if_pos answers, ← List.singleton_append, gather_append]
      exact ⟨p'_eq, first.append (follows.after step) last⟩
    · rw [if_neg (Bool.eq_false_iff.1 other)]
      exact ih rest_took

theorem takeFetched_eq_error
    (took : p.takeFetched batch requested fetched = (.error e, p')) :
    ∃ taken d, taken ++ [d] <+: fetched.filter (·.answers batch) ∧ p' = p.gather taken ∧
      p'.bank.addFetched d = .error e := by
  induction fetched generalizing p requested with
  | nil => cases took
  | cons m rest ih =>
    unfold takeFetched at took
    split at took
    next answers =>
      have filter_eq : (m :: rest).filter (·.answers batch) = [m] ++ rest.filter (·.answers batch) :=
        List.filter_cons_of_pos answers
      rw [filter_eq]
      cases added : p.bank.addFetched m with
      | error e' =>
        rw [added] at took
        cases took
        exact ⟨[], m, List.prefix_append _ _, rfl, added⟩
      | ok r =>
        rw [added] at took
        dsimp only at took
        split at took
        · cases took
        next p'' e' rest_took =>
          cases took
          obtain ⟨taken, d, before, p'_eq, failed⟩ := ih rest_took
          refine ⟨m :: taken, d, ?_, ?_, failed⟩
          · exact (List.prefix_append_right_inj [m]).2 before
          · rw [p'_eq, ← gather_of_addFetched added, ← gather_append]
            rfl
    next other =>
      have filter_eq : (m :: rest).filter (·.answers batch) = rest.filter (·.answers batch) :=
        List.filter_cons_of_neg other
      rw [filter_eq]
      exact ih took

/-- A resolution without a limit on its rounds: nothing is wanted any more, or a batch is fetched,
which fails, or brings a definition that cannot be stored, or is followed by the next one. -/
inductive Resolves (relay : Relay) (whom : Party) :
    Proxy → List Digest → List Digest → Outcome Unit → Prop
  | done {p : Proxy} {requested : List Digest} : Resolves relay whom p [] requested (.quiet p (.ok ()))
  | cut {p : Proxy} {batch requested : List Digest} {e : RelayError} (some_wanted : batch ≠ [])
    (failed : relay.fetch batch whom = .error e) :
    Resolves relay whom p batch requested ⟨.ok (), p, [], [], [⟨whom.name, batch⟩]⟩
  | clash {p p' : Proxy} {batch requested : List Digest} {fetched : List Message} {e : Error}
    (some_wanted : batch ≠ []) (answered : relay.fetch batch whom = .ok fetched)
    (took : p.takeFetched batch requested fetched = (.error e, p')) :
    Resolves relay whom p batch requested ⟨.error e, p', [], [], [⟨whom.name, batch⟩]⟩
  | next {p p' : Proxy} {batch requested next requested' : List Digest} {fetched : List Message}
    {o : Outcome Unit} (some_wanted : batch ≠ []) (answered : relay.fetch batch whom = .ok fetched)
    (took : p.takeFetched batch requested fetched = (.ok (next, requested'), p'))
    (rest : Resolves relay whom p' next requested' o) :
    Resolves relay whom p batch requested { o with fetches := ⟨whom.name, batch⟩ :: o.fetches }

theorem resolve_nil (rounds : Nat) : resolve relay whom rounds p [] requested = .quiet p (.ok ()) := by
  cases rounds <;> rfl

theorem resolve_resolves {rounds : Nat} (nodup : requested.Nodup)
    (enough : batch = [] ∨ maxRounds < rounds + requested.length) :
    Resolves relay whom p batch requested (resolve relay whom rounds p batch requested) := by
  -- a round is spent for at least one more digest, so rounds and digests stay above all there are
  induction rounds generalizing p batch requested with
  | zero =>
    obtain rfl | enough := enough
    · exact .done
    · have := Digest.length_le_maxRounds nodup
      omega
  | succ rounds ih =>
    by_cases wanted : batch = []
    · subst wanted
      rw [resolve_nil]
      exact .done
    · replace enough := enough.resolve_left wanted
      unfold resolve
      rw [if_neg (by simpa using wanted)]
      dsimp only
      cases answered : relay.fetch batch whom with
      | error e => exact .cut wanted answered
      | ok fetched =>
        dsimp only
        split
        next e p' took => exact .clash wanted answered took
        next next requested' p' took =>
          obtain ⟨-, follows⟩ := takeFetched_eq_ok took
          refine .next wanted answered took (ih (follows.nodup_requested nodup) ?_)
          by_cases last : next = []
          · exact .inl last
          · have longer := List.length_pos_iff.2 last
            rw [follows.requested_eq, List.length_append, List.length_reverse]
            omega

theorem Resolves.resolve_eq {rounds : Nat} (resolves : Resolves relay whom p batch requested o)
    (enough : o.fetches.length ≤ rounds) : resolve relay whom rounds p batch requested = o := by
  induction resolves generalizing rounds with
  | done => exact resolve_nil rounds
  | cut some_wanted failed =>
    cases rounds with
    | zero => cases enough
    | succ rounds => simp [resolve, some_wanted, failed]
  | clash some_wanted answered took =>
    cases rounds with
    | zero => cases enough
    | succ rounds => simp [resolve, some_wanted, answered, took]
  | next some_wanted answered took rest ih =>
    cases rounds with
    | zero => cases enough
    | succ rounds =>
      have rest_eq := ih (Nat.le_of_succ_le_succ enough)
      simp [resolve, some_wanted, answered, took, rest_eq]

theorem resolveReferences_resolves (relay : Relay) (q : Proxy) (m : Message) (whom : Party) :
    Resolves relay whom q (q.wanted m []).1 (q.wanted m []).2 (q.resolveReferences relay m whom) := by
  have follows := q.wanted_follows m []
  refine resolve_resolves (follows.nodup_requested .nil) ?_
  by_cases nothing : (q.wanted m []).1 = []
  · exact .inl nothing
  · have := List.length_pos_iff.2 nothing
    rw [follows.requested_eq, List.length_append, List.length_reverse]
    omega

/-- That a resolution let nothing in that nobody referred to. A relay answers by digest, and no
digest is asked for twice, so it is as free as if it could change its mind between two fetches. -/
structure Guarded (relay : Relay) (whom : Party) (m : Message) (q : Proxy) (o : Outcome Unit) : Prop where
  same : SameButBank q o.proxy
  quiet : o.sent = [] ∧ o.events = []
  kept : ∀ h d, q.bank.get? h = some d → o.proxy.bank.get? h = some d
  listed : ∀ id, o.proxy.definitionsOf id = q.definitionsOf id
  stored : ∃ new, o.proxy.bank.definitions = q.bank.definitions ++ new ∧
    ∀ d ∈ new, relay.Answered whom o.fetches d
  named : ∀ h d, o.proxy.bank.get? h = some d → q.bank.get? h = some d ∨ relay.Answered whom o.fetches d
  whom_eq : ∀ f ∈ o.fetches, f.whom = whom.name
  accepted : ∀ f ∈ o.fetches, ∀ h ∈ f.hashes, q.settings.accepts h.algorithm = true
  referenced : ∀ before f after, o.fetches = before ++ f :: after → ∀ h ∈ f.hashes,
    h ∈ m.references ∨ ∃ d, relay.Answered whom before d ∧ h ∈ d.references
  once : (o.fetches.flatMap (·.hashes)).Nodup

variable {before after : List Fetch} {f : Fetch} {d : Message}

theorem answered_mono {fetches fetches' : List Fetch} (subset : fetches ⊆ fetches')
    (answered : relay.Answered whom fetches d) : relay.Answered whom fetches' d := by
  obtain ⟨f, mem, came, named⟩ := answered
  exact ⟨f, subset mem, came, named⟩

theorem answered_of_filter (fetched_eq : relay.fetch batch whom = .ok fetched)
    (mem : d ∈ fetched.filter (·.answers batch)) : relay.Answered whom [⟨whom.name, batch⟩] d := by
  obtain ⟨came, named⟩ := List.mem_filter.1 mem
  refine ⟨_, List.mem_cons_self, ?_, List.any_eq_true.1 named⟩
  unfold Relay.returned
  rwa [fetched_eq]

theorem Resolves.gathers (resolves : Resolves relay whom p batch requested o) :
    ∃ taken, o.proxy = p.gather taken ∧ ∀ d ∈ taken, relay.Answered whom o.fetches d := by
  induction resolves with
  | done => exact ⟨[], rfl, by simp⟩
  | cut some_wanted failed => exact ⟨[], rfl, by simp⟩
  | clash some_wanted answered took =>
    obtain ⟨taken, d, before, p'_eq, -⟩ := takeFetched_eq_error took
    refine ⟨taken, p'_eq, fun d mem => answered_of_filter answered ?_⟩
    exact before.subset (List.mem_append_left _ mem)
  | next some_wanted answered took rest ih =>
    obtain ⟨p'_eq, -⟩ := takeFetched_eq_ok took
    obtain ⟨taken, proxy_eq, origin⟩ := ih
    refine ⟨_, by rw [proxy_eq, p'_eq, ← gather_append], fun d mem => ?_⟩
    obtain mem | mem := List.mem_append.1 mem
    · exact answered_mono (by simp) (answered_of_filter answered mem)
    · exact answered_mono (List.subset_cons_self _ _) (origin d mem)

theorem Resolves.quiet (resolves : Resolves relay whom p batch requested o) :
    o.sent = [] ∧ o.events = [] := by
  induction resolves with
  | next some_wanted answered took rest ih => exact ih
  | _ => exact ⟨rfl, rfl⟩

theorem Resolves.whom_eq (resolves : Resolves relay whom p batch requested o) :
    ∀ f ∈ o.fetches, f.whom = whom.name := by
  induction resolves with
  | done => simp [Outcome.quiet]
  | next some_wanted answered took rest ih => exact List.forall_mem_cons.2 ⟨rfl, ih⟩
  | _ => simp

theorem Resolves.referenced (resolves : Resolves relay whom p batch requested o) :
    ∀ before f after, o.fetches = before ++ f :: after → ∀ h ∈ f.hashes,
      h ∈ batch ∨ ∃ d, relay.Answered whom before d ∧ h ∈ d.references := by
  have alone : ∀ {batch : List Digest} {before f after},
      [(⟨whom.name, batch⟩ : Fetch)] = before ++ f :: after → f.hashes = batch := by
    intro batch before f after split_eq
    cases before with
    | nil =>
      cases split_eq
      rfl
    | cons f' before => simp at split_eq
  induction resolves with
  | done =>
    intro before f after split_eq
    cases before <;> cases split_eq
  | cut some_wanted failed => exact fun before f after split_eq h mem => .inl (alone split_eq ▸ mem)
  | clash some_wanted answered took =>
    exact fun before f after split_eq h mem => .inl (alone split_eq ▸ mem)
  | next some_wanted answered took rest ih =>
    intro before f after split_eq h mem
    obtain ⟨-, follows⟩ := takeFetched_eq_ok took
    cases before with
    | nil =>
      cases split_eq
      exact .inl mem
    | cons f' before =>
      obtain ⟨rfl, tail_eq⟩ := List.cons.inj split_eq
      obtain wanted | ⟨d, came, refers⟩ := ih before f after tail_eq h mem
      · obtain ⟨d, taken, refers⟩ := follows.referenced h wanted
        exact .inr ⟨d, answered_mono (by simp) (answered_of_filter answered taken), refers⟩
      · exact .inr ⟨d, answered_mono (List.subset_cons_self _ _) came, refers⟩

theorem Resolves.accepted (resolves : Resolves relay whom p batch requested o)
    (accepted : ∀ h ∈ batch, p.settings.accepts h.algorithm = true) :
    ∀ f ∈ o.fetches, ∀ h ∈ f.hashes, p.settings.accepts h.algorithm = true := by
  induction resolves with
  | done => simp [Outcome.quiet]
  | cut some_wanted failed => simpa using accepted
  | clash some_wanted answered took => simpa using accepted
  | next some_wanted answered took rest ih =>
    obtain ⟨p'_eq, follows⟩ := takeFetched_eq_ok took
    subst p'_eq
    exact List.forall_mem_cons.2 ⟨accepted, ih follows.accepted⟩

theorem Resolves.once (resolves : Resolves relay whom p batch requested o) (nodup : batch.Nodup)
    (asked : batch ⊆ requested) : (o.fetches.flatMap (·.hashes)).Nodup ∧
      ∀ h ∈ o.fetches.flatMap (·.hashes), h ∈ batch ∨ h ∉ requested := by
  induction resolves with
  | done => simp [Outcome.quiet]
  | cut some_wanted failed =>
    simp only [List.flatMap_cons, List.flatMap_nil, List.append_nil]
    exact ⟨nodup, fun h mem => .inl mem⟩
  | clash some_wanted answered took =>
    simp only [List.flatMap_cons, List.flatMap_nil, List.append_nil]
    exact ⟨nodup, fun h mem => .inl mem⟩
  | next some_wanted answered took rest ih =>
    obtain ⟨-, follows⟩ := takeFetched_eq_ok took
    obtain ⟨later_nodup, later⟩ := ih follows.nodup (by simp [follows.requested_eq])
    -- what is asked for later was not asked for yet, in this batch or before
    have fresh : ∀ h ∈ _, h ∉ _ := fun h mem => by
      obtain wanted | other := later h mem
      · exact follows.fresh h wanted
      · intro before
        rw [follows.requested_eq] at other
        exact other (List.mem_append_right _ before)
    rw [List.flatMap_cons]
    refine ⟨List.nodup_append.2 ⟨nodup, later_nodup, fun h mem k mem' same => ?_⟩, fun h mem => ?_⟩
    · subst same
      exact fresh h mem' (asked mem)
    · exact (List.mem_append.1 mem).imp_right (fresh h)

theorem Resolves.eq_of_single {d : Message} (resolves : Resolves relay whom p batch requested o)
    (some_wanted : batch ≠ []) (answered : relay.fetch batch whom = .ok fetched)
    (named : fetched.filter (·.answers batch) = [d]) (free : ∀ e, p.bank.addFetched d ≠ .error e)
    (closed : d.references = []) :
    o = ⟨.ok (), p.gather [d], [], [], [⟨whom.name, batch⟩]⟩ := by
  cases resolves with
  | done => exact absurd rfl some_wanted
  | cut _ failed =>
    rw [answered] at failed
    cases failed
  | clash _ answered' took =>
    obtain rfl := Except.ok.inj (answered.symm.trans answered')
    obtain ⟨taken, d', before, rfl, failed⟩ := takeFetched_eq_error took
    rw [named] at before
    cases taken with
    | nil =>
      obtain ⟨rfl, -⟩ := List.cons_prefix_cons.1 before
      exact absurd failed (free _)
    | cons d'' taken =>
      obtain ⟨-, before⟩ := List.cons_prefix_cons.1 before
      simp at before
  | @next _ _ _ _ next requested' _ _ _ answered' took rest =>
    obtain rfl := Except.ok.inj (answered.symm.trans answered')
    obtain ⟨rfl, follows⟩ := takeFetched_eq_ok took
    rw [named] at follows rest
    have last : next = [] := by
      refine List.eq_nil_iff_forall_not_mem.2 fun h wanted => ?_
      obtain ⟨d', mem, refers⟩ := follows.referenced h wanted
      rw [List.mem_singleton.1 mem, closed] at refers
      cases refers
    subst last
    cases rest with
    | done => rfl
    | cut some_wanted => exact absurd rfl some_wanted
    | clash some_wanted => exact absurd rfl some_wanted
    | next some_wanted => exact absurd rfl some_wanted

theorem lookUp_eq_ok_register {a b : Party} {n : Negotiation} {handle : Handle}
    (looked : p.lookUp m a b = .ok ((handle, n), p₁)) : ∃ register, p₁ = { p with register } := by
  obtain ⟨rfl, -⟩ | ⟨-, -, -, -, rfl⟩ := lookUp_cases looked
  · exact ⟨_, rfl⟩
  · exact ⟨_, rfl⟩

theorem Accepts.stored {event : Event} (accepts : p.Accepts now m whom event q) :
    ∃ register changed bank, p.bank.add m = .ok (changed, bank) ∧ q = { p with register, bank } := by
  obtain ⟨-, -, looked, -, settled⟩ := accepts
  obtain ⟨register, rfl⟩ := lookUp_eq_ok_register looked
  unfold settle at settled
  dsimp only at settled
  split at settled
  · cases settled
  next changed bank added =>
    split at settled
    · cases settled
    · cases settled
      exact ⟨_, changed, bank, added, rfl⟩

theorem Accepts.placed {event : Event} (accepts : p.Accepts now m whom event q)
    (placed : p.bank.Placed) : q.bank.Placed := by
  obtain ⟨register, changed, bank, added, rfl⟩ := accepts.stored
  obtain ⟨place, missing, adds⟩ := Bank.store_eq_ok added
  exact adds.placed placed

theorem Accepts.found {event : Event} {d : Message} (accepts : p.Accepts now m whom event q)
    (placed : p.bank.Placed) (found : q.bank.get? h = some d) :
    p.bank.get? h = some d ∨ d = m ∧ h.verifies m.canonicalBytes = true := by
  obtain ⟨register, changed, bank, added, rfl⟩ := accepts.stored
  obtain ⟨place, missing, adds⟩ := Bank.store_eq_ok added
  exact (adds.origin placed found).imp_right (And.imp_right Bank.verifies_of_mem_names)

theorem Accepts.receive_resolves {event : Event} (accepts : p.Accepts now m whom event q)
    (relay : Relay) :
    p.receive relay now m = { q.resolveReferences relay m whom with events := [event] } := by
  rw [accepts.receive_eq, (resolveReferences_resolves relay q m whom).quiet.2]

/-- Whatever a counter-party answers, it plants nothing: only what was asked for by a digest it has
is kept, and only what was referred to is asked for. -/
theorem resolution_guarded {event : Event} (reachable : p.Reachable)
    (accepts : p.Accepts now m whom event q) (relay : Relay) :
    p.receive relay now m = { q.resolveReferences relay m whom with events := [event] } ∧
      Guarded relay whom m q (q.resolveReferences relay m whom) := by
  have resolves := resolveReferences_resolves relay q m whom
  have first := q.wanted_follows m []
  have placed := accepts.placed reachable.steady.placed
  obtain ⟨taken, proxy_eq, origin⟩ := resolves.gathers
  have fetches := q.gather_fetches taken
  rw [← proxy_eq] at fetches
  refine ⟨accepts.receive_resolves relay, {
    same := fetches.bank
    quiet := resolves.quiet
    kept := fun h d => fetches.grows.get?
    listed := fun id => fetches.grows.ofNegotiation_eq placed fetches.listings_eq
    stored := ?_
    named := fun h d found => ?_
    whom_eq := resolves.whom_eq
    accepted := resolves.accepted first.accepted
    referenced := fun before f after split_eq h mem => ?_
    once := (resolves.once first.nodup (by simp [first.requested_eq])).1 }⟩
  · obtain ⟨new, definitions_eq, subset⟩ := q.bank.keepFetched_definitions taken
    rw [proxy_eq]
    exact ⟨new, definitions_eq, fun d mem => origin d (subset mem)⟩
  · rw [proxy_eq] at found
    exact (Bank.keepFetched_origin placed found).imp_right fun came => origin d came.1
  · refine (resolves.referenced before f after split_eq h mem).imp_left fun wanted => ?_
    obtain ⟨d, mem, refers⟩ := first.referenced h wanted
    exact List.mem_singleton.1 mem ▸ refers

theorem accepts_of_admits {n : Negotiation} (sound : p.Sound) (stands : p.Stands n)
    (held : n.Held p.parties p.settings) (admits : n.Admits (p.context now) n.second n.first m)
    (timely : Negotiation.checkTimestamp (p.context now) m.signature.timestamp = .ok ())
    (storable : ∀ e, p.bank.add m ≠ .error e)
    (shown : ∃ offer, (n.apply m n.first).lastRequest p.templates = .ok offer) :
    ∃ event q, p.Accepts now m n.second event q := by
  have counter : p.parties.byFingerprint .counter m.sender = .ok n.second :=
    byFingerprint_of_mem sound.parties held.counter_mem admits.sender_mem
      (by simp [Parties.Role.admits, held.isCounter])
  have owned : p.parties.byFingerprint .owned m.receiver = .ok n.first :=
    byFingerprint_of_mem sound.parties held.owned_mem admits.receiver_mem held.isOwned
  obtain ⟨handle, p₁, looked⟩ := lookUp_of_admits stands admits
  obtain ⟨located, -⟩ := located_of_receive sound counter owned looked
  have received : n.receive (p₁.context now) m = (.ok (), n.apply m n.first) := by
    rw [(located.sides sound).receive_eq_ok_iff, located.basis.context_eq]
    exact ⟨rfl, admits, timely⟩
  obtain ⟨offer, shown⟩ := shown
  obtain ⟨register, rfl⟩ := lookUp_eq_ok_register looked
  have settled : ∃ q event, ({ p with register } : Proxy).settle handle (n.apply m n.first) m =
      ⟨.ok (), q, [], [event], []⟩ := by
    unfold settle put event
    dsimp only
    cases added : p.bank.add m with
    | error e => exact absurd added (storable e)
    | ok stored =>
      dsimp only
      rw [shown]
      exact ⟨_, _, rfl⟩
  obtain ⟨q, event, settled⟩ := settled
  exact ⟨event, q, counter, owned, looked, received, settled⟩

end Proxy

namespace Sample

open Negotiation

theorem buyers_reachable (templates : Templates) :
    (Proxy.start parties templates settings fun i => .ofNat i).Reachable := by
  refine .run _ _ _ _ _ _ [] (fun a mem => ⟨settings, ?_, parties_built a mem⟩) parties_ofList
  decide

theorem buying_accepts {p : Proxy} {templates : Templates} {id : NegotiationId} {o : Offer}
    (start_eq : p = .start parties templates settings fun i => .ofNat i)
    (admits : (buying id).Admits (p.context now) (buying id).second (buying id).first (.offer o))
    (timely : checkTimestamp (p.context now) o.signature.timestamp = .ok ()) :
    ∃ event q, p.Accepts now (.offer o) (buying id).second event q := by
  subst start_eq
  have steady := (buyers_reachable templates).steady
  have held := buying_held id
  have sound : (Proxy.start parties templates settings fun i => .ofNat i).Sound :=
    Proxy.sound_start (Parties.sound_ofList parties_built parties_ofList)
  have received := (buying_sides id).receive_eq_ok_iff.2 ⟨rfl, admits, timely⟩
  refine Proxy.accepts_of_admits sound (buying_stands id) held admits timely (fun e failed => ?_) ?_
  · obtain ⟨a, -, place, other, found, -⟩ := Bank.store_eq_error_iff.1 ⟨e, failed⟩
    cases found
  · obtain ⟨r, shown⟩ := (shown_start id held.owned_mem held.counter_mem).offer steady.wellFormed
      steady.named (.inbound received)
    exact ⟨some r, shown⟩

theorem offer_accepts (id : NegotiationId) :
    ∃ event q, proxy.Accepts now (offer id).message (buying id).second event q := by
  obtain ⟨o, message_eq, -⟩ := stretched_eq id
  have admits := offer_admits id
  have timely := offer_timely id
  rw [message_eq] at admits timely ⊢
  exact buying_accepts rfl admits timely

def citing : Template where
  name := "Goods as before"
  text := "{Goods} under {Terms}"
  parameters := ["Goods", "Terms"]
  hashes := [.of .sha512 (Text.utf8 "{Goods} under {Terms}")]
  preferredHash := .of .sha512 (Text.utf8 "{Goods} under {Terms}")

def citingTemplates : Templates := ⟨⟨[citing]⟩⟩

def citation (h k : Digest) : Contract where
  templateHash := citing.preferredHash
  arguments := ⟨[("Goods", h.text), ("Terms", k.text)],
    List.pairwise_pair.2 (show "Goods" < "Terms" by decide)⟩

theorem text_visible (h : Digest) : Text.allBlank h.text = false := by
  have colon : Text.isBlank ':' = false := by decide
  simp [Text.allBlank, Digest.toList_text, colon]

theorem validate_citation (h k : Digest) : citingTemplates.validate (citation h k) = .ok citing := by
  refine Templates.validate_of_single ?_ ?_
  · -- by name, as the digest is not to be worked out
    have hashes_eq : citing.hashes = [citing.preferredHash] := rfl
    have hash_eq : (citation h k).templateHash = citing.preferredHash := rfl
    rw [hash_eq, hashes_eq]
    exact List.mem_singleton_self _
  · simp [Template.validate, Template.problems, citing, citation, Arguments.keys, Arguments.get?,
      List.lookup_cons, text_visible]

theorem references_citation (h k : Digest) : (citation h k).references = [h, k] := by
  have read (h : Digest) : Digest.ofText? h.text = some h :=
    Digest.ofText?_eq_some_iff.2 (Digest.ofText_eq_ok_iff.2 (by simp [HashAlgorithm.sameLetters]))
  simp [Contract.references, Arguments.values, citation, read]

def citingProxy : Proxy := .start parties citingTemplates settings fun i => .ofNat i

def offerCiting (h k : Digest) : Message := .sign .ed25519 sellerSeed (.offer
  ⟨7, (owned "Seller" sellerSeed).preferredFingerprint,
    (counter "Buyer" buyerSeed).preferredFingerprint, now.canonical, yearEnd.canonical, [citation h k],
    .unsigned now .ed25519⟩)

theorem references_offerCiting (h k : Digest) : (offerCiting h k).references = [h, k] := by
  rw [← references_citation h k]
  exact List.append_nil _

theorem citing_admits (h k : Digest) : (buying 7).Admits (citingProxy.context now)
    (buying 7).second (buying 7).first (offerCiting h k) := by
  have order : ¬ yearEnd.canonical < now.canonical := by decide
  have current : ¬ yearEnd.canonical < now := by decide
  have known : [citation h k].forM (fun c => (citingTemplates.validate c).map fun _ => ()) = .ok () := by
    unfold List.forM
    rw [validate_citation]
    rfl
  have drafted : (selling 7).Drafted ⟨citingTemplates, settings, now⟩ .offer
      (owned "Seller" sellerSeed) (counter "Buyer" buyerSeed)
      (⟨sellerSeed, .ed25519⟩ : OwnedKey).scheme (.offer
        ⟨7, (owned "Seller" sellerSeed).preferredFingerprint,
          (counter "Buyer" buyerSeed).preferredFingerprint, now.canonical, yearEnd.canonical, [citation h k],
          .unsigned now .ed25519⟩) :=
    ⟨rfl, rfl, rfl, rfl, checkContent_offer_eq_ok_iff.2 ⟨⟨by simp, order, current⟩, known⟩, rfl⟩
  have sides := selling_sides 7
  have admits := drafted.admits_sign sides.owned_built sides.counter_built rfl rfl
  refine admits.mirror (mirrored 7) rfl rfl ?_ ?_
  · rintro _ ⟨⟩
  · rintro o ⟨⟩
    exact current

theorem citing_accepts (h k : Digest) : ∃ event q,
    citingProxy.Accepts now (offerCiting h k) (buying 7).second event q := by
  refine buying_accepts rfl (citing_admits h k) (checkTimestamp_eq_ok_iff.2 ?_)
  change (now.canonical.apart now).nanoseconds ≤ settings.timestampTolerance.nanoseconds
  decide

def frame (id : NegotiationId) : Message :=
  .offer ⟨id, digest 1, digest 2, now, now, [], .unsigned now .ed25519⟩

def nameOf (d : Message) : Digest := .of .sha512 d.canonicalBytes

theorem canonicalBytes_eq (m : Message) :
    m.canonicalBytes = Text.encode (Json.object m.members).render :=
  Text.utf8_ofList _

set_option maxRecDepth 100000 in
theorem frames_nodup : ([frame 1, frame 2, frame 3].map nameOf).Nodup := by
  have sums : ([frame 1, frame 2, frame 3].map fun m =>
      Sha2.sha512 (Text.encode (Json.object m.members).render)).Nodup := by decide +kernel
  refine List.Nodup.of_map Digest.sum ?_
  rw [List.map_map]
  simpa only [Function.comp_def, nameOf, canonicalBytes_eq, Digest.of, HashAlgorithm.digest] using sums

def framed : Message := offerCiting (nameOf (frame 1)) (nameOf (frame 2))

theorem framed_accepts : ∃ event q, citingProxy.Accepts now framed (buying 7).second event q :=
  citing_accepts _ _

theorem exists_frame : ∃ d, (d = frame 1 ∨ d = frame 2) ∧ nameOf framed ≠ nameOf d := by
  have distinct := frames_nodup
  simp only [List.map_cons, List.map_nil, List.nodup_cons, List.mem_cons, not_or] at distinct
  by_cases same : nameOf framed = nameOf (frame 1)
  · exact ⟨frame 2, .inr rfl, fun other => distinct.1.1 (same.symm.trans other)⟩
  · exact ⟨frame 1, .inl rfl, same⟩

variable {d : Message} {q : Proxy} {event : Event}

theorem nameOf_frame_ne (known : d = frame 1 ∨ d = frame 2) : nameOf (frame 3) ≠ nameOf d := by
  have distinct := frames_nodup
  simp only [List.map_cons, List.map_nil, List.nodup_cons, List.mem_cons, not_or] at distinct
  obtain rfl | rfl := known
  · exact Ne.symm distinct.1.2.1
  · exact Ne.symm distinct.2.1.1

theorem nameOf_mem_references (known : d = frame 1 ∨ d = frame 2) : nameOf d ∈ framed.references := by
  rw [framed, references_offerCiting]
  obtain rfl | rfl := known <;> simp

theorem nameOf_of_verifies {h : Digest} (same : h.algorithm = .sha512)
    (named : h.verifies d.canonicalBytes = true) : nameOf d = h := by
  rw [← (Digest.verifies_iff _ _).1 named, same, nameOf]

theorem framed_unknown (accepts : citingProxy.Accepts now framed (buying 7).second event q)
    (other : nameOf framed ≠ nameOf d) : q.bank.get? (nameOf d) = none := by
  cases found : q.bank.get? (nameOf d) with
  | none => rfl
  | some d' =>
    obtain before | ⟨-, named⟩ := accepts.found (Bank.placed_empty _) found
    · cases before
    · exact absurd (nameOf_of_verifies rfl named) other

theorem framed_accepted (accepts : citingProxy.Accepts now framed (buying 7).second event q) :
    q.settings.accepted = [.sha512] ∧ q.bank.accepted = [.sha512] := by
  obtain ⟨register, changed, bank, added, rfl⟩ := accepts.stored
  obtain ⟨place, missing, adds⟩ := Bank.store_eq_ok added
  exact ⟨rfl, adds.accepted_eq⟩

theorem framed_accepts_sha512 (accepts : citingProxy.Accepts now framed (buying 7).second event q) :
    q.settings.accepts .sha512 = true := by
  rw [Settings.accepts, (framed_accepted accepts).1]
  rfl

theorem framed_free (accepts : citingProxy.Accepts now framed (buying 7).second event q)
    (unknown : q.bank.get? (nameOf d) = none) (e : Error) : q.bank.addFetched d ≠ .error e := by
  intro failed
  obtain ⟨a, mem, place, d', found, -⟩ := Bank.store_eq_error_iff.1 ⟨e, failed⟩
  rw [(framed_accepted accepts).2, List.mem_singleton] at mem
  subst mem
  exact absurd (found.symm.trans (Bank.get?_eq_none_iff.1 unknown)) (by simp)

theorem framed_found (accepts : citingProxy.Accepts now framed (buying 7).second event q)
    (unknown : q.bank.get? (nameOf d) = none) : (q.gather [d]).bank.get? (nameOf d) = some d := by
  cases added : q.bank.addFetched d with
  | error e => exact absurd added (framed_free accepts unknown e)
  | ok stored =>
    obtain ⟨place, missing, adds⟩ := Bank.store_eq_ok added
    rw [Proxy.gather_of_addFetched added]
    have placed := accepts.placed (Bank.placed_empty _)
    exact Bank.get?_eq_some_iff.2 (adds.find? placed (by simp [(framed_accepted accepts).2]))

def archivist (d : Message) : Relay := ⟨fun _ _ => .ok (), fun _ _ => .ok [frame 3, d]⟩

theorem archivist_answers {batch : List Digest}
    (subset : batch ⊆ framed.references) (asked : nameOf d ∈ batch) :
    [frame 3, d].filter (·.answers batch) = [d] := by
  have other : (frame 3).answers batch ≠ true := fun answers => by
    obtain ⟨h, asked, named⟩ := List.any_eq_true.1 answers
    have mem := subset asked
    rw [framed, references_offerCiting, List.mem_pair] at mem
    obtain rfl | rfl := mem
    · exact nameOf_frame_ne (.inl rfl) (nameOf_of_verifies rfl named)
    · exact nameOf_frame_ne (.inr rfl) (nameOf_of_verifies rfl named)
  have named : d.answers batch = true :=
    List.any_eq_true.2 ⟨nameOf d, asked, (Digest.verifies_iff _ _).2 rfl⟩
  rw [List.filter_cons_of_neg other, List.filter_cons_of_pos named, List.filter_nil]

theorem framed_guarded : ∃ d event q, (d = frame 1 ∨ d = frame 2) ∧
    citingProxy.Accepts now framed (buying 7).second event q ∧ q.bank.get? (nameOf d) = none ∧
    (q.resolveReferences (archivist d) framed (buying 7).second).fetches =
      [⟨(buying 7).second.name, (q.wanted framed []).1⟩] ∧
    (q.resolveReferences (archivist d) framed (buying 7).second).proxy = q.gather [d] ∧
    (q.gather [d]).bank.get? (nameOf d) = some d ∧
    citingProxy.receive (archivist d) now framed =
      { q.resolveReferences (archivist d) framed (buying 7).second with events := [event] } ∧
    Proxy.Guarded (archivist d) (buying 7).second framed q
      (q.resolveReferences (archivist d) framed (buying 7).second) := by
  obtain ⟨d, known, other⟩ := exists_frame
  obtain ⟨event, q, accepts⟩ := framed_accepts
  have unknown := framed_unknown accepts other
  have asked : nameOf d ∈ (q.wanted framed []).1 :=
    Proxy.mem_wanted_iff.2
      ⟨framed_accepts_sha512 accepts, List.not_mem_nil, nameOf_mem_references known, unknown⟩
  have subset : (q.wanted framed []).1 ⊆ framed.references := fun h mem =>
    (Proxy.mem_wanted_iff.1 mem).2.2.1
  have closed : d.references = [] := by obtain rfl | rfl := known <;> rfl
  have resolves := Proxy.resolveReferences_resolves (archivist d) q framed (buying 7).second
  have outcome_eq := resolves.eq_of_single (List.ne_nil_of_mem asked) rfl
    (archivist_answers subset asked) (framed_free accepts unknown) closed
  obtain ⟨receive_eq, guarded⟩ :=
    Proxy.resolution_guarded (buyers_reachable citingTemplates) accepts (archivist d)
  exact ⟨d, event, q, known, accepts, unknown, congrArg Outcome.fetches outcome_eq,
    congrArg Outcome.proxy outcome_eq, framed_found accepts unknown, receive_eq, guarded⟩

end Sample

end Parley
