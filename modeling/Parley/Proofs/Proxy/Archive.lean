import Mathlib.Data.List.Dedup
import Parley.Proofs.Proxy.Resolution
import Parley.Proofs.Proxy.Standing

namespace Parley

namespace Negotiation

variable {n n' : Negotiation} {ps : Parties} {templates : Templates} {s : Settings}
variable {ctx : UpdateContext} {m : Message} {b : Party} {h : Digest}

theorem Takes.id_eq (takes : n.Takes ps ctx m b) : m.id = n.id := by
  cases takes with
  | inbound received =>
    obtain ⟨x, y, route, -⟩ := route_of_receive received
    exact (inboundRoute_eq_ok route).1
  | outbound actor ask mem ready => exact id_of_prepareFor ready

theorem checkOfferHash_of_content (content : n.checkContent ctx m = .ok ()) (closing : m.kind ≠ .offer)
    (refers : h ∈ m.references) : n.checkOfferHash ctx.settings h = .ok () := by
  cases m with
  | offer o => exact absurd rfl closing
  | acceptance x => exact List.mem_singleton.1 refers ▸ content
  | rejection x => exact List.mem_singleton.1 refers ▸ content

end Negotiation

def Call.given : Call → List Message
  | .order _ _ => []
  | .message _ _ m => [m]

def Brought (answers : List (Fetch × Message)) (d : Message) : Prop :=
  ∃ f, (f, d) ∈ answers ∧ ∃ h ∈ f.hashes, h.verifies d.canonicalBytes = true

theorem Brought.mono {answers answers' : List (Fetch × Message)} {d : Message}
    (brought : Brought answers d) (subset : answers ⊆ answers') : Brought answers' d := by
  obtain ⟨f, mem, named⟩ := brought
  exact ⟨f, subset mem, named⟩

def Settings.TellsApart (s : Settings) (ms : List Message) : Prop :=
  ∀ m ∈ ms, ∀ n ∈ ms, ∀ a ∈ s.accepted,
    Digest.of a m.canonicalBytes = .of a n.canonicalBytes → m.canonicalBytes = n.canonicalBytes

theorem Settings.TellsApart.mono {s : Settings} {ms ns : List Message} (apart : s.TellsApart ms)
    (subset : ns ⊆ ms) : s.TellsApart ns :=
  fun m mem n mem' => apart m (subset mem) n (subset mem')

theorem Settings.TellsApart.separates {s : Settings} {ms : List Message} (apart : s.TellsApart ms)
    (precise : ∀ m ∈ ms, m.Precise) : Ledger.Separates Digest.of s.accepted ms := by
  intro m mem n mem' h named named'
  obtain ⟨a, accepted, rfl⟩ := List.mem_map.1 named
  obtain ⟨a', -, same⟩ := List.mem_map.1 named'
  obtain rfl : a' = a := congrArg Digest.algorithm same
  exact (precise m mem).eq_of_canonicalBytes (precise n mem') (apart m mem n mem' a' accepted same.symm)

/-- That a bank took some deposits: the messages of some entries, in order, and what some fetches
brought. -/
structure Bank.Takes (b b' : Bank) (entries : List (RegisterKey × Message))
    (answers : List (Fetch × Message)) (ds : List Deposit) : Prop where
  bank_eq : b' = (b.keepAll Digest.of ds).2
  listed : (ds.filter (·.listed)).map (·.message) = entries.map (·.2)
  fetched : ∀ d ∈ ds, d.listed = false → Brought answers d.message

namespace Bank

variable {b b' b'' : Bank} {entries entries' : List (RegisterKey × Message)} {m : Message}
variable {answers answers' : List (Fetch × Message)} {ds ds' : List Deposit} {key : RegisterKey}

theorem Takes.nil : b.Takes b [] answers [] :=
  ⟨rfl, rfl, fun d mem => by cases mem⟩

theorem Takes.append (first : b.Takes b' entries answers ds) (second : b'.Takes b'' entries' answers' ds') :
    b.Takes b'' (entries ++ entries') (answers ++ answers') (ds ++ ds') where
  bank_eq := by rw [second.bank_eq, first.bank_eq, keepAll_append]
  listed := by rw [List.filter_append, List.map_append, first.listed, second.listed, List.map_append]
  fetched d mem unlisted := by
    obtain mem | mem := List.mem_append.1 mem
    · exact (first.fetched d mem unlisted).mono (List.subset_append_left _ _)
    · exact (second.fetched d mem unlisted).mono (List.subset_append_right _ _)

theorem Takes.origin (takes : b.Takes b' entries answers ds) : ∀ d ∈ ds,
    d.message ∈ entries.map (·.2) ∨ Brought answers d.message := by
  intro d mem
  cases listed : d.listed with
  | true =>
    rw [← takes.listed]
    exact .inl (List.mem_map_of_mem (List.mem_filter.2 ⟨mem, listed⟩))
  | false => exact .inr (takes.fetched d mem listed)

theorem takes_committed (key : RegisterKey) (bank_eq : b' = (b.keep Digest.of ⟨m, true⟩).2) :
    b.Takes b' [(key, m)] answers [⟨m, true⟩] :=
  ⟨bank_eq, rfl, fun d mem unlisted => by rw [List.mem_singleton.1 mem] at unlisted; cases unlisted⟩

theorem takes_fetched {fetched : List Message} (brought : ∀ d ∈ fetched, Brought answers d) :
    b.Takes (b.keepFetched fetched) [] answers (fetched.map fun d => ⟨d, false⟩) where
  bank_eq := rfl
  listed := by simp [List.filter_map, Function.comp_def]
  fetched d mem _ := by
    obtain ⟨d', fetched, rfl⟩ := List.mem_map.1 mem
    exact brought d' fetched

theorem eraseDups_filter {α : Type} [BEq α] [LawfulBEq α] (xs : List α) (test : α → Bool) :
    xs.eraseDups.filter test = (xs.filter test).eraseDups := by
  rw [← List.filterMap_eq_filter, filterMap_eraseDups]
  intro x y z here there
  rw [Option.guard_eq_some_iff] at here there
  exact here.1.trans there.1.symm

theorem Takes.agrees {accepted : List HashAlgorithm} (takes : (empty accepted).Takes b entries answers ds)
    (some_accepted : accepted ≠ [])
    (separates : Ledger.Separates Digest.of accepted (ds.map (·.message))) :
    b.Agrees Digest.of ⟨(ds.map (·.message)).eraseDups, (entries.map (·.2)).eraseDups⟩ := by
  obtain ⟨a, others, rfl⟩ := List.exists_cons_of_ne_nil some_accepted
  have nothing : [] ++ ds.map (·.message) = ds.map (·.message) := List.nil_append _
  obtain ⟨-, ledger_eq⟩ := Ledger.keepAll_of_separates (l := .empty) ds List.eraseDups_nil.symm
    List.eraseDups_nil.symm (nothing ▸ separates)
  obtain ⟨-, mirrors⟩ := (mirrors_empty Digest.of a others).keepAll ds
  rw [ledger_eq, ← takes.bank_eq, takes.listed] at mirrors
  exact mirrors.agrees

end Bank

namespace Proxy

variable {p p' p₁ q : Proxy} {n : Negotiation} {key : RegisterKey} {h : Handle} {now : Instant}
variable {m : Message} {b whom : Party} {call : Call} {result : Except Error Unit} {relay : Relay}
variable {entries entries' : List (RegisterKey × Message)} {ds : List Deposit} {calls : List Call}

def gained (p p' : Proxy) : List (RegisterKey × Message) :=
  p'.register.keys.dedup.flatMap fun key =>
    ((p'.log key).drop (p.log key).length).map fun m => (key, m)

/-- Every message that some operations commit, in order, and under which key. -/
def history (p : Proxy) : List Call → List (RegisterKey × Message)
  | [] => []
  | call :: rest => p.gained (p.perform call).proxy ++ history (p.perform call).proxy rest

/-- Every definition that comes back while an operation fetches, and for which fetch. -/
def answers (p : Proxy) : Call → List (Fetch × Message)
  | .order _ _ => []
  | .message relay now m =>
    match p.parties.byFingerprint .counter m.sender with
    | .error _ => []
    | .ok whom =>
      (p.receive relay now m).fetches.flatMap fun f => (relay.returned whom f).map fun d => (f, d)

def answersAll (p : Proxy) : List Call → List (Fetch × Message)
  | [] => []
  | call :: rest => p.answers call ++ answersAll (p.perform call).proxy rest

def arrivals (p : Proxy) (calls : List Call) : List Message :=
  calls.flatMap Call.given ++ (p.answersAll calls).map (·.2)

def Logs (p p' : Proxy) (entries : List (RegisterKey × Message)) : Prop :=
  ∀ key, p'.log key = p.log key ++ (entries.filter (·.1 = key)).map (·.2)

theorem Logs.append (first : Logs p p₁ entries) (second : Logs p₁ p' entries') :
    Logs p p' (entries ++ entries') := by
  intro key
  rw [second key, first key, List.filter_append, List.map_append, List.append_assoc]

theorem Reachable.basis_run (reachable : p.Reachable) (calls : List Call) : SameBasis p (p.run calls) :=
  (run_lasts reachable.steady.wellFormed reachable.steady.lasts reachable.steady.register calls).1

theorem Reachable.standing (reachable : p.Reachable) : p.Standing := by
  obtain ⟨parties, ps, templates, s, held, ids, calls, built, made⟩ := reachable
  exact run_standing (standing_start (Parties.ofList_eq_ok made).2.2) calls

theorem Reachable.accepted_eq (reachable : p.Reachable) :
    p.bank.accepted = p.settings.accepted := by
  obtain ⟨parties, ps, templates, s, held, ids, calls, built, made⟩ := reachable
  have first := Reachable.run parties ps templates s held ids [] built made
  rw [run_nil] at first
  rw [(run_grows first.steady calls).accepted_eq, (first.basis_run calls).settings_eq]
  rfl

/-- That a message entered the log under a key and the bank, and nothing else did. -/
structure Enters (p q : Proxy) (key : RegisterKey) (m : Message) : Prop where
  id_eq : m.id = key.2
  registered : key ∈ q.register.keys
  log_eq : q.log key = p.log key ++ [m]
  elsewhere : ∀ k, k ≠ key → q.log k = p.log k
  bank_eq : q.bank = (p.bank.keep Digest.of ⟨m, true⟩).2

theorem gained_of_same (same : ∀ key, p'.log key = p.log key) : p.gained p' = [] := by
  simp [gained, same]

theorem flatMap_eq_single {α β : Type} {xs : List α} {x : α} {f : α → List β} (nodup : xs.Nodup)
    (mem : x ∈ xs) (others : ∀ y, y ≠ x → f y = []) : xs.flatMap f = f x := by
  induction xs with
  | nil => cases mem
  | cons y ys ih =>
    obtain ⟨fresh, nodup⟩ := List.nodup_cons.1 nodup
    rw [List.flatMap_cons]
    obtain rfl | mem := List.mem_cons.1 mem
    · have nothing : ys.flatMap f = [] :=
        List.flatMap_eq_nil_iff.2 fun z mem => others z fun same => fresh (same ▸ mem)
      rw [nothing, List.append_nil]
    · rw [others y fun same => fresh (same ▸ mem), List.nil_append]
      exact ih nodup mem

theorem Enters.gained_eq (enters : Enters p q key m) : p.gained q = [(key, m)] := by
  unfold gained
  rw [flatMap_eq_single (List.nodup_dedup _) (List.mem_dedup.2 enters.registered)]
  · simp [enters.log_eq]
  · intro k ne
    simp [enters.elsewhere k ne]

theorem Enters.logs (enters : Enters p q key m) : Logs p q [(key, m)] := by
  intro k
  by_cases here : k = key
  · subst here
    simpa using enters.log_eq
  · simpa [Ne.symm here] using enters.elsewhere k here

theorem Picks.enters (picks : Picks p call p₁ h n) (standing : p.Standing)
    (takes : n.Takes p.parties (p.context call.now) m b) {bank : Bank}
    (bank_eq : bank = (p.bank.keep Digest.of ⟨m, true⟩).2) :
    Enters p { p₁.put h (n.apply m b) with bank } n.key m := by
  obtain ⟨sound, found, elsewhere⟩ :=
    picks.found standing.settled.register standing.settled.lasts
  have holds := sound.holds_of_find? found
  have differs := Register.differs_put (n.apply m b) sound found
  exact {
    id_eq := takes.id_eq
    registered := (sound.put found Negotiation.key_apply
      (standing.settled.lasts.take n call.now m b holds takes)).mem_keys differs.at_key
    log_eq := picks.log_eq standing takes
    elsewhere := fun k ne => by
      have same := (differs.elsewhere k ne).trans (elsewhere k ne)
      exact congrArg (Option.elim · [] (·.messages)) same
    bank_eq := bank_eq }

theorem Acts.enters (acts : Acts p call result q) (standing : p.Standing) :
    ((∀ key, q.log key = p.log key) ∧ q.bank = p.bank) ∨
      ∃ key m, call.Gives m ∧ Enters p q key m := by
  cases acts with
  | idle e drawn => exact .inl ⟨fun key => rfl, rfl⟩
  | refused e picks stays =>
    have traceless := picks.traceless standing.settled stays
    exact .inl ⟨traceless.log_eq, traceless.bank_eq⟩
  | unbanked e picks gives takes failed =>
    refine .inr ⟨_, _, gives, picks.enters standing takes ?_⟩
    rw [Bank.keep_of_error (d := ⟨_, true⟩) failed]
    exact picks.bank_eq
  | committed picks gives takes added failing =>
    refine .inr ⟨_, _, gives, picks.enters standing takes ?_⟩
    rw [Bank.keep_of_ok (d := ⟨_, true⟩) added]

structure Archives (p : Proxy) (call : Call) (p' : Proxy) : Prop where
  logs : Logs p p' (p.gained p')
  entered : ∀ entry ∈ p.gained p', entry.2.id = entry.1.2 ∧ call.Gives entry.2
  takes : ∃ ds, p.bank.Takes p'.bank (p.gained p') (p.answers call) ds

theorem Acts.archives (acts : Acts p call result q) (standing : p.Standing) : Archives p call q := by
  obtain ⟨same, bank_eq⟩ | ⟨key, m, gives, enters⟩ := acts.enters standing
  · have nothing := gained_of_same same
    refine ⟨?_, ?_, ?_⟩
    · rw [nothing]
      exact fun key => (same key).trans (List.append_nil _).symm
    · simp [nothing]
    · rw [nothing, bank_eq]
      exact ⟨[], .nil⟩
  · have one := enters.gained_eq
    refine ⟨?_, ?_, ?_⟩
    · rw [one]
      exact enters.logs
    · simpa [one] using ⟨enters.id_eq, gives⟩
    · rw [one]
      exact ⟨_, Bank.takes_committed key enters.bank_eq⟩

theorem Archives.gather {fetched : List Message} (archives : Archives p call q)
    (brought : ∀ d ∈ fetched, Brought (p.answers call) d) : Archives p call (q.gather fetched) where
  logs := archives.logs
  entered := archives.entered
  takes := by
    obtain ⟨ds, takes⟩ := archives.takes
    have both := takes.append (Bank.takes_fetched (b := q.bank) brought)
    rw [List.append_nil] at both
    exact ⟨_, both.bank_eq, both.listed, fun d mem unlisted =>
      (both.fetched d mem unlisted).mono (by simp)⟩

theorem Accepts.brought {event : Event} {fetched : List Message}
    (accepts : p.Accepts now m whom event q)
    (origin : ∀ d ∈ fetched, relay.Answered whom (q.resolveReferences relay m whom).fetches d) :
    ∀ d ∈ fetched, Brought (p.answers (.message relay now m)) d := by
  intro d mem
  obtain ⟨f, asked, came, named⟩ := origin d mem
  refine ⟨f, ?_, named⟩
  have receive_eq := accepts.receive_eq relay
  obtain ⟨counter, -⟩ := accepts
  unfold answers
  dsimp only
  rw [counter, receive_eq]
  exact List.mem_flatMap.2 ⟨f, asked, List.mem_map_of_mem came⟩

theorem perform_archives (standing : p.Standing) (call : Call) :
    Archives p call (p.perform call).proxy := by
  have wf := standing.wellFormed
  cases call with
  | order relay order => exact (carryOut_acts wf relay order).archives standing
  | message relay now m =>
    obtain ⟨acts, -⟩ | ⟨whom, event, q, accepts, acts⟩ := receive_acts wf relay now m
    · exact acts.archives standing
    · obtain ⟨taken, proxy_eq, origin⟩ := (resolveReferences_resolves relay q m whom).gathers
      rw [perform_message, accepts.receive_eq]
      dsimp only
      rw [proxy_eq]
      exact (acts.archives standing).gather (accepts.brought origin)

theorem run_logs (standing : p.Standing) (calls : List Call) :
    Logs p (p.run calls) (p.history calls) := by
  induction calls generalizing p with
  | nil => exact fun key => (List.append_nil _).symm
  | cons call rest ih =>
    exact (perform_archives standing call).logs.append (ih (perform_standing standing call))

theorem run_takes (standing : p.Standing) (calls : List Call) :
    ∃ ds, p.bank.Takes (p.run calls).bank (p.history calls) (p.answersAll calls) ds := by
  induction calls generalizing p with
  | nil => exact ⟨[], .nil⟩
  | cons call rest ih =>
    -- what the rest deposits comes after, which keeps the order of the commits
    obtain ⟨ds, first⟩ := (perform_archives standing call).takes
    obtain ⟨ds', rest⟩ := ih (perform_standing standing call)
    exact ⟨ds ++ ds', first.append rest⟩

theorem history_gives (standing : p.Standing) (calls : List Call) : ∀ entry ∈ p.history calls,
    entry.2.id = entry.1.2 ∧ ∃ call ∈ calls, call.Gives entry.2 := by
  induction calls generalizing p with
  | nil => simp [history]
  | cons call rest ih =>
    intro entry mem
    obtain mem | mem := List.mem_append.1 mem
    · obtain ⟨id_eq, gives⟩ := (perform_archives standing call).entered entry mem
      exact ⟨id_eq, call, List.mem_cons_self, gives⟩
    · obtain ⟨id_eq, call', given, gives⟩ := ih (perform_standing standing call) entry mem
      exact ⟨id_eq, call', List.mem_cons_of_mem _ given, gives⟩

theorem run_entered (standing : p.Standing) (calls : List Call)
    (regular : ∀ call ∈ calls, call.Regular) : ∀ entry ∈ p.history calls,
      entry.2.id = entry.1.2 ∧ (entry.2.Precise ∨ entry.2 ∈ p.arrivals calls) := by
  intro entry mem
  obtain ⟨id_eq, call, given, gives⟩ := history_gives standing calls entry mem
  refine ⟨id_eq, ?_⟩
  cases call with
  | order relay order => exact .inl (gives (regular _ given))
  | message relay now m =>
    have same : entry.2 = m := gives
    exact .inr (List.mem_append_left _ (List.mem_flatMap.2 ⟨_, given, by simp [Call.given, same]⟩))

theorem history_append (p : Proxy) (calls rest : List Call) :
    p.history (calls ++ rest) = p.history calls ++ (p.run calls).history rest := by
  induction calls generalizing p with
  | nil => rfl
  | cons call calls ih =>
    simp only [List.cons_append, history, run_cons, ih, List.append_assoc]

theorem answersAll_append (p : Proxy) (calls rest : List Call) :
    p.answersAll (calls ++ rest) = p.answersAll calls ++ (p.run calls).answersAll rest := by
  induction calls generalizing p with
  | nil => rfl
  | cons call calls ih =>
    simp only [List.cons_append, answersAll, run_cons, ih, List.append_assoc]

theorem arrivals_subset (p : Proxy) (calls rest : List Call) :
    p.arrivals calls ⊆ p.arrivals (calls ++ rest) := by
  intro m mem
  unfold arrivals at mem ⊢
  rw [List.flatMap_append, answersAll_append, List.map_append]
  simp only [List.mem_append] at mem ⊢
  tauto

/-- A proxy with nothing negotiated yet. Its settings accept some algorithm, as all that are loaded do;
its parties may have been built under others. -/
inductive Fresh : Proxy → Prop
  | start (parties : List Party) (ps : Parties) (templates : Templates) (s held : Settings)
    (ids : Nat → NegotiationId) (some_accepted : s.accepted ≠ [])
    (built : ∀ a ∈ parties, ∃ s' : Settings, s'.accepted ≠ [] ∧ a.Built s')
    (made : Parties.ofList parties held = .ok ps) : Fresh (.start ps templates s ids)

theorem Fresh.reachable (fresh : p.Fresh) (calls : List Call) : (p.run calls).Reachable := by
  obtain ⟨parties, ps, templates, s, held, ids, -, built, made⟩ := fresh
  exact .run parties ps templates s held ids calls built made

theorem Fresh.bank_eq (fresh : p.Fresh) : p.bank = .empty p.settings.accepted := by
  obtain ⟨⟩ := fresh
  rfl

theorem Fresh.some_accepted (fresh : p.Fresh) : p.settings.accepted ≠ [] := by
  obtain ⟨some_accepted⟩ := fresh
  assumption

theorem Fresh.log_eq (fresh : p.Fresh) (key : RegisterKey) : p.log key = [] := by
  obtain ⟨⟩ := fresh
  exact log_start key

structure Archived (p : Proxy) (calls : List Call) : Prop where
  logged : ∀ key, (p.run calls).log key = ((p.history calls).filter (·.1 = key)).map (·.2)
  stored : ∀ key, ∀ m ∈ (p.run calls).log key, ∀ a ∈ p.settings.accepted,
    (p.run calls).bank.get? (.of a m.canonicalBytes) = some m
  listed : ∀ id, (p.run calls).definitionsOf id =
    (((p.history calls).filter (·.1.2 = id)).map (·.2)).eraseDups
  others : ∀ d ∈ (p.run calls).bank.definitions,
    (∃ key, d ∈ (p.run calls).log key) ∨ Brought (p.answersAll calls) d
  known : ∀ relay now m, m.kind ≠ .offer → ((p.run calls).receive relay now m).fetches = []

theorem Accepts.wanted_eq_nil {event : Event} (accepts : p.Accepts now m whom event q)
    (stored : ∀ key, ∀ m ∈ p.log key, ∀ a ∈ p.settings.accepted,
      p.bank.get? (.of a m.canonicalBytes) = some m) (closing : m.kind ≠ .offer) :
    (q.wanted m []).1 = [] := by
  have follows := q.wanted_follows m []
  obtain ⟨register, changed, bank, added, rfl⟩ := accepts.stored
  obtain ⟨-, -, looked, received, -⟩ := accepts
  obtain ⟨rfl, found⟩ := (lookUp_cases looked).resolve_right fun opens => closing opens.1
  refine List.eq_nil_iff_forall_not_mem.2 fun h wanted => ?_
  obtain ⟨d, mem, refers⟩ := follows.referenced h wanted
  obtain rfl := List.mem_singleton.1 mem
  -- the digest names the last offer of the negotiation, which was committed to it
  have content := (Negotiation.sides_of_receive received).2.2
  have named := Negotiation.checkOfferHash_of_content content closing refers
  obtain ⟨accepted, last, last_eq, verifies⟩ := Negotiation.checkOfferHash_eq_ok_iff.1 named
  have committed := log_of_registered? (Register.registered?_of_find? found)
  have there := stored _ (.offer last) (by
    rw [committed]
    exact List.mem_append_left _ (List.mem_map_of_mem (List.mem_of_getLast? last_eq))) _ accepted
  rw [(Digest.verifies_iff _ _).1 verifies] at there
  obtain ⟨place, missing, adds⟩ := Bank.store_eq_ok added
  have unknown := follows.unknown h wanted
  rw [adds.grows.get? there] at unknown
  cases unknown

theorem receive_closing (steady : p.Steady) (stored : ∀ key, ∀ m ∈ p.log key, ∀ a ∈ p.settings.accepted,
      p.bank.get? (.of a m.canonicalBytes) = some m) (closing : m.kind ≠ .offer) :
    (p.receive relay now m).fetches = [] := by
  obtain ⟨-, quiet⟩ | ⟨whom, event, q, accepts, -⟩ := receive_acts steady.wellFormed relay now m
  · exact quiet
  · have nothing := accepts.wanted_eq_nil stored closing
    rw [accepts.receive_eq]
    unfold resolveReferences
    dsimp only
    rw [nothing, resolve_nil]
    rfl

theorem Fresh.logged (fresh : p.Fresh) (calls : List Call) (key : RegisterKey) :
    (p.run calls).log key = ((p.history calls).filter (·.1 = key)).map (·.2) := by
  simpa [fresh.log_eq key] using run_logs (fresh.reachable []).standing calls key

theorem Fresh.takes (fresh : p.Fresh) (calls : List Call)
    (precise : ∀ m ∈ p.arrivals calls, m.Precise) (regular : ∀ call ∈ calls, call.Regular)
    (apart : p.settings.TellsApart (p.arrivals calls ++ (p.history calls).map (·.2))) :
    ∃ ds, p.bank.Takes (p.run calls).bank (p.history calls) (p.answersAll calls) ds ∧
      (p.run calls).bank.Agrees Digest.of
        ⟨(ds.map (·.message)).eraseDups, ((p.history calls).map (·.2)).eraseDups⟩ := by
  have reachable : p.Reachable := fresh.reachable []
  have standing := reachable.standing
  obtain ⟨ds, takes⟩ := run_takes standing calls
  -- no deposit was kept out, as each one was committed or came in
  have separates : Ledger.Separates Digest.of p.settings.accepted (ds.map (·.message)) := by
    refine (apart.separates fun m occurs => ?_).mono fun m deposited => ?_
    · obtain arrived | committed := List.mem_append.1 occurs
      · exact precise m arrived
      · obtain ⟨entry, mem, rfl⟩ := List.mem_map.1 committed
        exact (run_entered standing calls regular entry mem).2.elim id (precise _)
    · obtain ⟨d, mem, rfl⟩ := List.mem_map.1 deposited
      obtain committed | ⟨f, came, -⟩ := takes.origin d mem
      · exact List.mem_append_right _ committed
      · exact List.mem_append_left _ (List.mem_append_right _ (List.mem_map_of_mem came))
  refine ⟨ds, takes, ?_⟩
  rw [fresh.bank_eq] at takes
  exact takes.agrees fresh.some_accepted separates

def Stored (p : Proxy) : Prop :=
  ∀ key, ∀ m ∈ p.log key, ∀ a ∈ p.bank.accepted, p.bank.get? (.of a m.canonicalBytes) = some m

theorem Fresh.stored (fresh : p.Fresh) (calls : List Call)
    (precise : ∀ m ∈ p.arrivals calls, m.Precise) (regular : ∀ call ∈ calls, call.Regular)
    (apart : p.settings.TellsApart (p.arrivals calls ++ (p.history calls).map (·.2))) :
    (p.run calls).Stored := by
  obtain ⟨ds, -, agrees⟩ := fresh.takes calls precise regular apart
  intro key m committed a accepted
  rw [fresh.logged calls key] at committed
  obtain ⟨entry, mem, rfl⟩ := List.mem_map.1 committed
  refine (agrees.get?_iff _ _).2 ⟨agrees.committed_subset ?_, List.mem_map_of_mem accepted⟩
  exact List.mem_eraseDups.2 (List.mem_map_of_mem (List.mem_of_mem_filter mem))

/-- Whatever a proxy is asked and whatever comes back when it fetches: if all that comes in is at the
precision of messages, all that its own messages say of time can be written, and digests tell apart all
that comes in and all that is committed, bank and logs agree. -/
theorem run_archived (fresh : p.Fresh) (calls : List Call)
    (precise : ∀ m ∈ p.arrivals calls, m.Precise) (regular : ∀ call ∈ calls, call.Regular)
    (apart : p.settings.TellsApart (p.arrivals calls ++ (p.history calls).map (·.2))) :
    p.Archived calls := by
  have reachable : p.Reachable := fresh.reachable []
  have entered := run_entered reachable.standing calls regular
  have settings_eq := (reachable.basis_run calls).settings_eq
  have logged := fresh.logged calls
  have stored := fresh.stored calls precise regular apart
  rw [Stored, (fresh.reachable calls).accepted_eq, settings_eq] at stored
  obtain ⟨ds, takes, agrees⟩ := fresh.takes calls precise regular apart
  refine ⟨logged, stored, fun id => ?_, fun d held => ?_, fun relay now m closing => ?_⟩
  · have ids : (p.history calls).filter (·.2.id == id) = (p.history calls).filter (·.1.2 = id) :=
      List.filter_congr fun entry mem => by rw [(entered entry mem).1, Bool.beq_eq_decide_eq]
    unfold definitionsOf
    rw [agrees.ofNegotiation_eq, Bank.eraseDups_filter, List.filter_map]
    exact congrArg (fun entries => (entries.map (·.2)).eraseDups) ids
  · rw [agrees.definitions_eq, List.mem_eraseDups] at held
    obtain ⟨deposit, mem, rfl⟩ := List.mem_map.1 held
    refine (takes.origin deposit mem).imp_left fun committed => ?_
    obtain ⟨entry, mem, same⟩ := List.mem_map.1 committed
    refine ⟨entry.1, ?_⟩
    rw [logged, ← same]
    exact List.mem_map_of_mem (List.mem_filter.2 ⟨mem, by simp⟩)
  · exact receive_closing (fresh.reachable calls).steady (settings_eq ▸ stored) closing

end Proxy

namespace Sample

open Negotiation

theorem offer_precise (id : NegotiationId) : (offer id).message.Precise := by
  have made := prepare_offer id
  cases ready : (selling id).prepareFor ⟨templates, settings, now⟩ (owned "Seller" sellerSeed)
      (.offer now yearEnd [contract]) with
  | mk result n' =>
    rw [ready] at made
    dsimp only at made
    subst made
    have regular : now.Regular ∧ yearEnd.Regular := by decide
    exact precise_of_prepareFor ready regular regular.1

theorem proxy_fresh : proxy.Fresh :=
  .start _ _ _ _ _ _ (by decide) (fun a mem => ⟨settings, by decide, parties_built a mem⟩) parties_ofList

def twice (m : Message) : List Call := [.message relay now m, .message relay now m]

theorem answers_nil {p : Proxy} {relay : Relay} {m : Message}
    (mute : ∀ whom f, relay.returned whom f = []) : p.answers (.message relay now m) = [] := by
  unfold Proxy.answers
  dsimp only
  split
  · rfl
  · simp [mute]

theorem occurs_eq {calls : List Call} {m : Message} (each : ∀ call ∈ calls,
      ∃ relay : Relay, call = .message relay now m ∧ ∀ whom f, relay.returned whom f = []) :
    ∀ d ∈ proxy.arrivals calls ++ (proxy.history calls).map (·.2), d = m := by
  have nothing : ∀ p : Proxy, p.answersAll calls = [] := by
    induction calls with
    | nil => exact fun p => rfl
    | cons call rest ih =>
      obtain ⟨relay, rfl, mute⟩ := each call List.mem_cons_self
      intro p
      rw [Proxy.answersAll, answers_nil mute, ih fun call mem => each call (List.mem_cons_of_mem _ mem)]
      rfl
  intro d mem
  rw [Proxy.arrivals, nothing, List.map_nil, List.append_nil] at mem
  obtain mem | mem := List.mem_append.1 mem
  · obtain ⟨call, given, mem⟩ := List.mem_flatMap.1 mem
    obtain ⟨relay, rfl, -⟩ := each call given
    exact List.mem_singleton.1 mem
  · obtain ⟨entry, committed, rfl⟩ := List.mem_map.1 mem
    have reachable : proxy.Reachable := proxy_fresh.reachable []
    obtain ⟨-, call, given, gives⟩ := Proxy.history_gives reachable.standing calls entry committed
    obtain ⟨relay, rfl, -⟩ := each call given
    exact gives

theorem returned_relay (whom : Party) (f : Fetch) : relay.returned whom f = [] := by
  simp [Relay.returned, relay]

theorem twice_occurs (m : Message) :
    ∀ d ∈ proxy.arrivals (twice m) ++ (proxy.history (twice m)).map (·.2), d = m :=
  occurs_eq fun call mem => ⟨relay, by simpa [twice] using mem, returned_relay⟩

theorem offer_archived : proxy.Fresh ∧ (∀ m ∈ proxy.arrivals (twice (offer 7).message), m.Precise) ∧
    (∀ call ∈ twice (offer 7).message, call.Regular) ∧
    proxy.settings.TellsApart (proxy.arrivals (twice (offer 7).message) ++
      (proxy.history (twice (offer 7).message)).map (·.2)) ∧
    proxy.Archived (twice (offer 7).message) := by
  have precise := offer_precise 7
  have occurs := twice_occurs (offer 7).message
  generalize (offer 7).message = m at precise occurs ⊢
  have all_precise : ∀ d ∈ proxy.arrivals (twice m), d.Precise := fun d mem =>
    occurs d (List.mem_append_left _ mem) ▸ precise
  have regular : ∀ call ∈ twice m, call.Regular := by simp [twice, Call.Regular]
  have apart : proxy.settings.TellsApart
      (proxy.arrivals (twice m) ++ (proxy.history (twice m)).map (·.2)) :=
    fun d mem d' mem' a _ _ => by rw [occurs d mem, occurs d' mem']
  exact ⟨proxy_fresh, all_precise, regular, apart,
    Proxy.run_archived proxy_fresh (twice m) all_precise regular apart⟩

end Sample

end Parley
