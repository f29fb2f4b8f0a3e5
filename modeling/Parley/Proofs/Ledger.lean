import Mathlib.Data.List.Nodup
import Parley.Proofs.Bank
import Parley.Proofs.Party

namespace Parley

/-- A definition given to a bank, to be listed if it was committed and not if it was only fetched. -/
structure Deposit where
  message : Message
  listed : Bool
  deriving DecidableEq

structure Ledger where
  stored : List Message
  committed : List Message

section

variable (digest : HashAlgorithm → List UInt8 → Digest) (accepted : List HashAlgorithm)

def Message.names (m : Message) : List Digest :=
  accepted.map fun a => digest a m.canonicalBytes

namespace Ledger

def empty : Ledger := ⟨[], []⟩

def clashes (l : Ledger) (m : Message) (h : Digest) : Bool :=
  l.stored.any fun other => other ≠ m && (other.names digest accepted).contains h

def keep (l : Ledger) (d : Deposit) : Except Error Bool × Ledger :=
  match (d.message.names digest accepted).find? (l.clashes digest accepted d.message) with
  | some h => (.error (.hashCollision h), l)
  | none =>
    let new := !l.stored.contains d.message
    let enlisted := d.listed && !l.committed.contains d.message
    (.ok (new || enlisted),
      ⟨if new then l.stored ++ [d.message] else l.stored,
        if enlisted then l.committed ++ [d.message] else l.committed⟩)

def keepAll (l : Ledger) : List Deposit → List (Except Error Bool) × Ledger
  | [] => ([], l)
  | d :: ds =>
    let (result, l) := l.keep digest accepted d
    let (results, l) := keepAll l ds
    (result :: results, l)

end Ledger

namespace Bank

def keep (b : Bank) (d : Deposit) : Except Error Bool × Bank :=
  match b.store digest d.message d.listed with
  | .error e => (.error e, b)
  | .ok (changed, b') => (.ok changed, b')

def keepAll (b : Bank) : List Deposit → List (Except Error Bool) × Bank
  | [] => ([], b)
  | d :: ds =>
    let (result, b) := b.keep digest d
    let (results, b) := keepAll b ds
    (result :: results, b)

/-- That a bank answers as a ledger does, and goes on to. -/
structure Agrees (b : Bank) (l : Ledger) : Prop where
  definitions_eq : b.definitions = l.stored
  stored_nodup : l.stored.Nodup
  committed_nodup : l.committed.Nodup
  committed_subset : l.committed ⊆ l.stored
  size_eq : b.size = l.stored.length
  get?_iff : ∀ h m, b.get? h = some m ↔ m ∈ l.stored ∧ h ∈ m.names digest b.accepted
  contains_eq : ∀ h, b.contains h = (b.get? h).isSome
  unknown_eq : ∀ hs, b.unknown hs = hs.filter fun h => (b.get? h).isNone
  getMany_eq : ∀ hs, b.getMany hs = (hs.filterMap b.get?).eraseDups
  ofNegotiation_eq : ∀ id, b.ofNegotiation id = l.committed.filter (·.id == id)
  refused_iff : ∀ d, (∃ h, b.keep digest d = (.error (.hashCollision h), b)) ↔
    ∃ h ∈ d.message.names digest b.accepted, ∃ other, b.get? h = some other ∧ other ≠ d.message
  available : ∀ d, (∃ h, b.keep digest d = (.error (.hashCollision h), b)) ∨
    ∃ changed b', b.keep digest d = (.ok changed, b') ∧
      ∀ h ∈ d.message.names digest b.accepted, b'.get? h = some d.message
  lasting : ∀ ds h m, b.get? h = some m → (b.keepAll digest ds).2.get? h = some m

end Bank

end

namespace Bank

variable {digest : HashAlgorithm → List UInt8 → Digest} {a : HashAlgorithm}
variable {others : List HashAlgorithm} {b b' : Bank} {l : Ledger} {m : Message} {d : Deposit}
variable {h key : Digest} {hashes rest : List Digest} {place : Nat} {known : Option Nat} {list : Bool}

theorem get?_eq_some_iff : b.get? h = some m ↔ ∃ place, b.find? h = some (place, m) := by
  simp [get?]

theorem get?_eq_none_iff : b.get? h = none ↔ b.find? h = none := by
  simp [get?]

theorem probe_eq_error : b.probe m hashes = .error h ↔
    (hashes.find? fun h => (b.get? h).any (· ≠ m)) = some h := by
  induction hashes with
  | nil => simp [probe]
  | cons k rest ih =>
    cases found : b.find? k with
    | none => simp [probe_cons_of_none found, map_eq_error_iff, ih, get?, found]
    | some entry =>
      obtain ⟨place, other⟩ := entry
      rw [probe_cons_of_some found]
      by_cases same : other = m
      · simp [same, map_eq_error_iff, ih, get?, found]
      · simp [same, get?, found]

theorem probe_of_stored (stored : ∀ h ∈ key :: rest, b.find? h = some (place, m)) :
    b.probe m (key :: rest) = .ok (some place, []) := by
  induction rest generalizing key with
  | nil => rw [probe_cons_of_some (stored key List.mem_cons_self), if_pos rfl]; rfl
  | cons h rest ih =>
    obtain ⟨found, others⟩ := List.forall_mem_cons.1 stored
    rw [probe_cons_of_some found, if_pos rfl, ih others]
    rfl

theorem probe_of_free (free : ∀ h ∈ hashes, b.find? h = none) :
    b.probe m hashes = .ok (none, hashes) := by
  induction hashes with
  | nil => rfl
  | cons h rest ih =>
    obtain ⟨unknown, others⟩ := List.forall_mem_cons.1 free
    rw [probe_cons_of_none unknown, ih others]
    rfl

def enlist (b : Bank) (m : Message) (list : Bool) (key : Digest) (place : Nat) : Bank :=
  if list && !b.listed.contains key then
    { b with listings := b.listings ++ [(m.id, place)], listed := key :: b.listed }
  else b

theorem store_eq_ok_of_probe {missing : List Digest} (named : m.names digest b.accepted = key :: rest)
    (probed : b.probe m (key :: rest) = .ok (known, missing)) : b.store digest m list =
      .ok (known.isNone || list && !b.listed.contains key, enlist { b with
        definitions := if known.isNone then b.definitions ++ [m] else b.definitions
        names := b.names ++ missing.map fun h => (h, known.getD b.definitions.length) }
          m list key (known.getD b.definitions.length)) := by
  unfold Message.names at named
  unfold store enlist
  rw [named]
  dsimp only
  rw [probed]
  dsimp only
  split
  next wanted => rw [wanted, Bool.or_true]
  next unwanted =>
    rw [Bool.not_eq_true] at unwanted
    rw [unwanted, Bool.or_false]

theorem store_eq_error_of_probe (probed : b.probe m (m.names digest b.accepted) = .error h) :
    b.store digest m list = .error (.hashCollision h) := by
  unfold Message.names at probed
  unfold store
  dsimp only
  rw [probed]

structure Mirrors (digest : HashAlgorithm → List UInt8 → Digest) (a : HashAlgorithm)
    (others : List HashAlgorithm) (b : Bank) (l : Ledger) : Prop where
  accepted_eq : b.accepted = a :: others
  placed : b.Placed
  definitions_eq : b.definitions = l.stored
  nodup : l.stored.Nodup
  find?_iff : ∀ h place m, b.find? h = some (place, m) ↔
    l.stored[place]? = some m ∧ h ∈ m.names digest (a :: others)
  listings_eq : b.listings.map (fun entry => (entry.1, l.stored[entry.2]?)) =
    l.committed.map fun m => (m.id, some m)
  listed_eq : b.listed = (l.committed.map fun m => digest a m.canonicalBytes).reverse
  committed_subset : l.committed ⊆ l.stored
  committed_nodup : l.committed.Nodup

theorem mirrors_empty (digest : HashAlgorithm → List UInt8 → Digest) (a : HashAlgorithm)
    (others : List HashAlgorithm) : Mirrors digest a others (empty (a :: others)) .empty where
  accepted_eq := rfl
  placed := placed_empty _
  definitions_eq := rfl
  nodup := .nil
  find?_iff h place m := by simp [find?, empty, Ledger.empty]
  listings_eq := rfl
  listed_eq := rfl
  committed_subset := List.nil_subset _
  committed_nodup := .nil

theorem Mirrors.get?_iff (mirrors : Mirrors digest a others b l) :
    b.get? h = some m ↔ m ∈ l.stored ∧ h ∈ m.names digest (a :: others) := by
  rw [get?_eq_some_iff, List.mem_iff_getElem?]
  simp only [mirrors.find?_iff, exists_and_right]

theorem Mirrors.clashes_eq (mirrors : Mirrors digest a others b l) :
    (b.get? h).any (· ≠ m) = l.clashes digest (a :: others) m h := by
  rw [Bool.eq_iff_iff, Option.any_eq_true, Ledger.clashes, List.any_eq_true]
  simp only [mirrors.get?_iff, decide_not, Bool.and_eq_true, List.contains_iff_mem]
  constructor
  · rintro ⟨other, ⟨stored, named⟩, ne⟩
    exact ⟨other, stored, ne, named⟩
  · rintro ⟨other, stored, ne, named⟩
    exact ⟨other, ⟨stored, named⟩, ne⟩

theorem Placed.lt_of_lookup (placed : b.Placed) (looked : b.names.lookup h = some place) :
    place < b.definitions.length := by
  obtain ⟨before, after, names_eq, -⟩ := List.lookup_eq_some_iff.1 looked
  exact placed.names (h, place) (names_eq ▸ by simp)

theorem mem_names_cons : digest a m.canonicalBytes ∈ m.names digest (a :: others) :=
  List.mem_map_of_mem List.mem_cons_self

theorem Mirrors.contains_listed (mirrors : Mirrors digest a others b l) (stored : m ∈ l.stored) :
    b.listed.contains (digest a m.canonicalBytes) = l.committed.contains m := by
  rw [Bool.eq_iff_iff, List.contains_iff_mem, List.contains_iff_mem, mirrors.listed_eq,
    List.mem_reverse, List.mem_map]
  constructor
  · rintro ⟨other, committed, same⟩
    -- a digest names one definition only
    have found := mirrors.get?_iff.2 ⟨stored, mem_names_cons⟩
    rw [← same, mirrors.get?_iff.2 ⟨mirrors.committed_subset committed, mem_names_cons⟩] at found
    exact Option.some.inj found ▸ committed
  · intro committed
    exact ⟨m, committed, rfl⟩

theorem Mirrors.enlist (mirrors : Mirrors digest a others b l) (there : l.stored[place]? = some m) :
    Mirrors digest a others (b.enlist m list (digest a m.canonicalBytes) place) ⟨l.stored,
      if list && !l.committed.contains m then l.committed ++ [m] else l.committed⟩ := by
  have stored := List.mem_of_getElem? there
  unfold Bank.enlist
  rw [mirrors.contains_listed stored]
  split
  next wanted =>
    have fresh : m ∉ l.committed := by
      intro committed
      simp [committed] at wanted
    have inside := (List.getElem?_eq_some_iff.1 there).1
    exact {
      accepted_eq := mirrors.accepted_eq
      placed := by
        refine ⟨mirrors.placed.names, fun entry mem => ?_⟩
        obtain mem | mem := List.mem_append.1 mem
        · exact mirrors.placed.listings entry mem
        · rw [List.mem_singleton.1 mem, mirrors.definitions_eq]
          exact inside
      definitions_eq := mirrors.definitions_eq
      nodup := mirrors.nodup
      find?_iff := mirrors.find?_iff
      listings_eq := by
        rw [List.map_append, mirrors.listings_eq, List.map_append, List.map_singleton, there]
        rfl
      listed_eq := by rw [mirrors.listed_eq, List.map_append, List.reverse_append]; rfl
      committed_subset := List.append_subset.2 ⟨mirrors.committed_subset, by simpa using stored⟩
      committed_nodup := List.nodup_append_comm.1 (List.nodup_cons.2 ⟨fresh, mirrors.committed_nodup⟩) }
  · exact mirrors

theorem lookup_append_map {names : List (Digest × Nat)} : (names ++ hashes.map fun k => (k, place)).lookup h =
    (names.lookup h).or (if h ∈ hashes then some place else none) := by
  rw [List.lookup_append]
  congr 1
  split
  next named => exact lookup_map_of_mem named
  next other =>
    rw [List.lookup_eq_none_iff]
    rintro entry mem
    obtain ⟨k, named, rfl⟩ := List.mem_map.1 mem
    simp only [bne_iff_ne]
    rintro rfl
    exact other named

theorem getElem?_append_singleton {α : Type} {xs : List α} {x y : α} {i : Nat}
    (there : (xs ++ [x])[i]? = some y) : xs[i]? = some y ∨ i = xs.length ∧ y = x := by
  obtain lt | rfl | gt := Nat.lt_trichotomy i xs.length
  · rw [List.getElem?_append_left lt] at there
    exact .inl there
  · rw [List.getElem?_concat_length] at there
    exact .inr ⟨rfl, (Option.some.inj there).symm⟩
  · rw [List.getElem?_eq_none (by simp; omega)] at there
    cases there

theorem Mirrors.append (mirrors : Mirrors digest a others b l)
    (free : ∀ h ∈ m.names digest (a :: others), b.find? h = none) :
    Mirrors digest a others { b with
      definitions := b.definitions ++ [m]
      names := b.names ++ (m.names digest (a :: others)).map fun h => (h, b.definitions.length) }
        ⟨l.stored ++ [m], l.committed⟩ where
  accepted_eq := mirrors.accepted_eq
  placed := by
    refine ⟨fun entry mem => ?_, fun entry mem => ?_⟩
    · rw [List.length_append]
      obtain mem | mem := List.mem_append.1 mem
      · exact Nat.lt_succ_of_lt (mirrors.placed.names entry mem)
      · obtain ⟨h, -, rfl⟩ := List.mem_map.1 mem
        exact Nat.lt_succ_self _
    · rw [List.length_append]
      exact Nat.lt_succ_of_lt (mirrors.placed.listings entry mem)
  definitions_eq := by rw [mirrors.definitions_eq]
  nodup := by
    refine List.nodup_append_comm.1 (List.nodup_cons.2 ⟨fun stored => ?_, mirrors.nodup⟩)
    have found := mirrors.get?_iff.2 ⟨stored, mem_names_cons⟩
    rw [get?_eq_none_iff.2 (free _ mem_names_cons)] at found
    cases found
  find?_iff h place n := by
    rw [find?_eq_some_iff, lookup_append_map, mirrors.definitions_eq, and_comm]
    refine and_congr_right fun there => ?_
    -- an old name leads to an old place, and the new place has new names only
    obtain old | ⟨rfl, rfl⟩ := getElem?_append_singleton there
    · have inside := (List.getElem?_eq_some_iff.1 old).1
      have looked : b.names.lookup h = some place ↔ h ∈ n.names digest (a :: others) := by
        have found := mirrors.find?_iff h place n
        rw [find?_eq_some_iff, mirrors.definitions_eq] at found
        simpa [old] using found
      rw [← looked]
      cases b.names.lookup h with
      | none =>
        simp only [Option.none_or, Option.ite_none_right_eq_some, Option.some.injEq, reduceCtorEq,
          iff_false]
        omega
      | some place' => rfl
    · cases looked : b.names.lookup h with
      | none => simp
      | some place' =>
        have inside := mirrors.placed.lt_of_lookup looked
        rw [mirrors.definitions_eq] at inside
        refine iff_of_false ?_ fun named => ?_
        · simp only [Option.some_or, Option.some.injEq]
          omega
        · rw [mirrors.placed.lookup_eq_none (free h named)] at looked
          cases looked
  listings_eq := by
    rw [← mirrors.listings_eq]
    refine List.map_congr_left fun entry mem => ?_
    have inside := mirrors.placed.listings entry mem
    rw [mirrors.definitions_eq] at inside
    rw [List.getElem?_append_left inside]
  listed_eq := mirrors.listed_eq
  committed_subset := fun n committed => List.mem_append_left _ (mirrors.committed_subset committed)
  committed_nodup := mirrors.committed_nodup

theorem Mirrors.keep (mirrors : Mirrors digest a others b l) (d : Deposit) :
    (b.keep digest d).1 = (l.keep digest (a :: others) d).1 ∧
      Mirrors digest a others (b.keep digest d).2 (l.keep digest (a :: others) d).2 := by
  obtain ⟨m, list⟩ := d
  have clashes_eq : (fun h => (b.get? h).any (· ≠ m)) = l.clashes digest (a :: others) m :=
    funext fun h => mirrors.clashes_eq
  have named : m.names digest b.accepted = m.names digest (a :: others) := by
    rw [mirrors.accepted_eq]
  unfold Bank.keep Ledger.keep
  dsimp only
  cases clash : (m.names digest (a :: others)).find? (l.clashes digest (a :: others) m) with
  | some h =>
    have refused : b.store digest m list = .error (.hashCollision h) := by
      refine store_eq_error_of_probe ?_
      rw [probe_eq_error, clashes_eq, named, clash]
    rw [refused]
    exact ⟨rfl, mirrors⟩
  | none =>
    have harmless : ∀ h ∈ m.names digest (a :: others), ∀ other, b.get? h = some other → other = m := by
      intro h mem other found
      have := List.find?_eq_none.1 clash h mem
      rw [← clashes_eq] at this
      simpa [found] using this
    by_cases stored : m ∈ l.stored
    · obtain ⟨place, there⟩ := List.mem_iff_getElem?.1 stored
      have probed := probe_of_stored fun h mem => (mirrors.find?_iff h place m).2 ⟨there, mem⟩
      have known : l.stored.contains m = true := List.contains_iff_mem.2 stored
      rw [store_eq_ok_of_probe named probed, mirrors.contains_listed stored]
      simp only [known, Bool.not_true, Option.isNone_some, Bool.false_or, Bool.false_eq_true,
        ↓reduceIte, List.map_nil, List.append_nil, Option.getD_some, true_and]
      exact mirrors.enlist there
    · have free : ∀ h ∈ m.names digest (a :: others), b.find? h = none := by
        intro h mem
        rw [← get?_eq_none_iff]
        cases found : b.get? h with
        | none => rfl
        | some other =>
          obtain rfl := harmless h mem other found
          exact absurd (mirrors.get?_iff.1 found).1 stored
      have appended := mirrors.append free
      have here : (l.stored ++ [m])[b.definitions.length]? = some m := by
        rw [mirrors.definitions_eq, List.getElem?_concat_length]
      have new : l.stored.contains m = false := by simpa using stored
      rw [store_eq_ok_of_probe named (probe_of_free free)]
      simp only [new, Bool.not_false, Option.isNone_none, Bool.true_or, ↓reduceIte, Option.getD_none,
        true_and]
      exact appended.enlist here

theorem Mirrors.keepAll (mirrors : Mirrors digest a others b l) (ds : List Deposit) :
    (b.keepAll digest ds).1 = (l.keepAll digest (a :: others) ds).1 ∧
      Mirrors digest a others (b.keepAll digest ds).2 (l.keepAll digest (a :: others) ds).2 := by
  induction ds generalizing b l with
  | nil => exact ⟨rfl, mirrors⟩
  | cons d ds ih =>
    obtain ⟨result_eq, next⟩ := mirrors.keep d
    obtain ⟨results_eq, last⟩ := ih next
    refine ⟨?_, last⟩
    unfold Bank.keepAll Ledger.keepAll
    dsimp only
    rw [result_eq, results_eq]

theorem keep_of_ok {changed : Bool} (stored : b.store digest d.message d.listed = .ok (changed, b')) :
    b.keep digest d = (.ok changed, b') := by
  rw [keep, stored]

theorem keep_of_error {e : Error} (failed : b.store digest d.message d.listed = .error e) :
    b.keep digest d = (.error e, b) := by
  rw [keep, failed]

theorem keep_cases (digest : HashAlgorithm → List UInt8 → Digest) (b : Bank) (d : Deposit) :
    (∃ h, b.store digest d.message d.listed = .error (.hashCollision h) ∧
      b.keep digest d = (.error (.hashCollision h), b)) ∨
    ∃ changed b', b.store digest d.message d.listed = .ok (changed, b') ∧
      b.keep digest d = (.ok changed, b') := by
  cases stored : b.store digest d.message d.listed with
  | error e =>
    obtain ⟨h, rfl⟩ := store_eq_error stored
    exact .inl ⟨h, rfl, keep_of_error stored⟩
  | ok r =>
    obtain ⟨changed, b'⟩ := r
    exact .inr ⟨changed, b', rfl, keep_of_ok stored⟩

theorem keep_grows (digest : HashAlgorithm → List UInt8 → Digest) (b : Bank) (d : Deposit) :
    b.Grows (b.keep digest d).2 := by
  obtain ⟨h, -, kept⟩ | ⟨changed, b', stored, kept⟩ := keep_cases digest b d <;> rw [kept]
  · exact .refl
  · obtain ⟨place, missing, adds⟩ := store_eq_ok stored
    exact adds.grows

theorem keepAll_grows (digest : HashAlgorithm → List UInt8 → Digest) (b : Bank) (ds : List Deposit) :
    b.Grows (b.keepAll digest ds).2 := by
  induction ds generalizing b with
  | nil => exact .refl
  | cons d ds ih => exact (keep_grows digest b d).trans (ih _)

theorem Grows.get? (grows : b.Grows b') (found : b.get? h = some m) : b'.get? h = some m := by
  obtain ⟨place, found⟩ := get?_eq_some_iff.1 found
  exact get?_eq_some_iff.2 ⟨place, grows.named h _ found⟩

theorem keepAll_append (digest : HashAlgorithm → List UInt8 → Digest) (b : Bank) (ds es : List Deposit) :
    (b.keepAll digest (ds ++ es)).2 = ((b.keepAll digest ds).2.keepAll digest es).2 := by
  induction ds generalizing b with
  | nil => rfl
  | cons d ds ih => exact ih _

theorem store_definitions {changed : Bool} (stored : b.store digest m list = .ok (changed, b')) :
    b'.definitions = b.definitions ∨ b'.definitions = b.definitions ++ [m] := by
  unfold store at stored
  dsimp only at stored
  split at stored
  · cases stored
  next known missing probed =>
    have one : (if known.isNone then b.definitions ++ [m] else b.definitions) = b.definitions ∨
        (if known.isNone then b.definitions ++ [m] else b.definitions) = b.definitions ++ [m] := by
      cases known with
      | none => exact .inr rfl
      | some place => exact .inl rfl
    split at stored
    · split at stored
      · cases stored
        exact one
      · cases stored
        exact one
    · cases stored
      exact one

theorem Adds.origin {missing : List Digest} {n : Message} (adds : b.Adds digest m list b' place missing)
    (placed : b.Placed) (found : b'.get? h = some n) :
    b.get? h = some n ∨ n = m ∧ h ∈ m.names digest b.accepted := by
  obtain ⟨place', found⟩ := get?_eq_some_iff.1 found
  obtain ⟨named, there⟩ := find?_eq_some_iff.1 found
  rw [adds.names_eq, lookup_append_map] at named
  cases old : b.names.lookup h with
  | none =>
    rw [old, Option.none_or, Option.ite_none_right_eq_some] at named
    obtain ⟨new, same⟩ := named
    cases same
    exact .inr ⟨Option.some.inj (there.symm.trans adds.there), adds.own new⟩
  | some place'' =>
    rw [old, Option.some_or] at named
    cases named
    refine .inl (get?_eq_some_iff.2 ⟨place', find?_eq_some_iff.2 ⟨old, ?_⟩⟩)
    obtain ⟨more, definitions_eq⟩ := adds.definitions
    rwa [← definitions_eq, List.getElem?_append_left (placed.lt_of_lookup old)] at there

theorem keep_origin (placed : b.Placed) (found : (b.keep digest d).2.get? h = some m) :
    b.get? h = some m ∨ m = d.message ∧ h ∈ m.names digest b.accepted := by
  obtain ⟨h, -, kept⟩ | ⟨changed, b', stored, kept⟩ := keep_cases digest b d <;> rw [kept] at found
  · exact .inl found
  · obtain ⟨place, missing, adds⟩ := store_eq_ok stored
    refine (adds.origin placed found).imp_right fun ⟨same, named⟩ => ⟨same, ?_⟩
    exact same ▸ named

theorem keepAll_origin {ds : List Deposit} (placed : b.Placed)
    (found : (b.keepAll digest ds).2.get? h = some m) :
    b.get? h = some m ∨ (∃ d ∈ ds, m = d.message) ∧ h ∈ m.names digest b.accepted := by
  induction ds generalizing b with
  | nil => exact .inl found
  | cons d ds ih =>
    have grows := keep_grows digest b d
    obtain found | ⟨⟨d', mem, same⟩, named⟩ := ih (grows.placed placed) found
    · obtain found | ⟨same, named⟩ := keep_origin placed found
      · exact .inl found
      · exact .inr ⟨⟨d, List.mem_cons_self, same⟩, named⟩
    · exact .inr ⟨⟨d', List.mem_cons_of_mem _ mem, same⟩, grows.accepted_eq ▸ named⟩

theorem mem_ofNegotiation_keep {id : NegotiationId} (placed : b.Placed)
    (mem : m ∈ (b.keep digest d).2.ofNegotiation id) :
    m ∈ b.ofNegotiation id ∨ d.listed = true ∧ m = d.message ∧ m.id = id := by
  obtain ⟨h, -, kept⟩ | ⟨changed, b', stored, kept⟩ := keep_cases digest b d <;> rw [kept] at mem
  · exact .inl mem
  · obtain ⟨place, missing, adds⟩ := store_eq_ok stored
    obtain same | ⟨wanted, here, listings_eq⟩ := adds.ofNegotiation placed id
    · exact .inl (same ▸ mem)
    · rw [listings_eq] at mem
      obtain mem | mem := List.mem_append.1 mem
      · exact .inl mem
      · obtain rfl := List.mem_singleton.1 mem
        exact .inr ⟨wanted, rfl, here⟩

theorem mem_ofNegotiation_keepAll {ds : List Deposit} {id : NegotiationId} (placed : b.Placed)
    (mem : m ∈ (b.keepAll digest ds).2.ofNegotiation id) :
    m ∈ b.ofNegotiation id ∨ m.id = id ∧ ∃ d ∈ ds, d.listed = true ∧ m = d.message := by
  induction ds generalizing b with
  | nil => exact .inl mem
  | cons d ds ih =>
    obtain mem | ⟨here, d', mem', listed⟩ := ih ((keep_grows digest b d).placed placed) mem
    · obtain mem | ⟨wanted, same, here⟩ := mem_ofNegotiation_keep placed mem
      · exact .inl mem
      · exact .inr ⟨here, d, List.mem_cons_self, wanted, same⟩
    · exact .inr ⟨here, d', List.mem_cons_of_mem _ mem', listed⟩

theorem keepAll_definitions (digest : HashAlgorithm → List UInt8 → Digest) (b : Bank)
    (ds : List Deposit) : ∃ new,
    (b.keepAll digest ds).2.definitions = b.definitions ++ new ∧ ∀ m ∈ new, ∃ d ∈ ds, m = d.message := by
  induction ds generalizing b with
  | nil => exact ⟨[], (List.append_nil _).symm, by simp⟩
  | cons d ds ih =>
    obtain ⟨new, definitions_eq, origin⟩ := ih (b.keep digest d).2
    have first : (b.keep digest d).2.definitions = b.definitions ∨
        (b.keep digest d).2.definitions = b.definitions ++ [d.message] := by
      obtain ⟨h, -, kept⟩ | ⟨changed, b', stored, kept⟩ := keep_cases digest b d <;> rw [kept]
      · exact .inl rfl
      · exact store_definitions stored
    have later : ∀ m ∈ new, ∃ d' ∈ d :: ds, m = d'.message := fun m mem => by
      obtain ⟨d', mem, same⟩ := origin m mem
      exact ⟨d', List.mem_cons_of_mem _ mem, same⟩
    obtain same | added := first
    · exact ⟨new, definitions_eq.trans (by rw [same]), later⟩
    · refine ⟨d.message :: new, definitions_eq.trans (by rw [added]; simp), ?_⟩
      exact List.forall_mem_cons.2 ⟨⟨d, List.mem_cons_self, rfl⟩, later⟩

theorem filterMap_eraseDups {α β : Type} [BEq α] [LawfulBEq α] [BEq β] [LawfulBEq β] {f : α → Option β}
    (inj : ∀ x y z, f x = some z → f y = some z → x = y) (xs : List α) :
    xs.eraseDups.filterMap f = (xs.filterMap f).eraseDups := by
  -- `eraseDups` goes on with what is left after a filter, so the recursion is on the length
  match xs with
  | [] => rfl
  | x :: xs =>
    have rest := filterMap_eraseDups inj (xs.filter fun y => !y == x)
    rw [List.eraseDups_cons]
    cases image : f x with
    | none =>
      have same : (xs.filter fun y => !y == x).filterMap f = xs.filterMap f := by
        rw [List.filterMap_filter]
        refine List.filterMap_congr fun y _ => ?_
        by_cases y_eq : y = x <;> simp [y_eq, image]
      rw [List.filterMap_cons_none image, List.filterMap_cons_none image, rest, same]
    | some z =>
      have same : (xs.filter fun y => !y == x).filterMap f = (xs.filterMap f).filter fun y => !y == z := by
        rw [List.filterMap_filter, List.filter_filterMap]
        refine List.filterMap_congr fun y _ => ?_
        by_cases y_eq : y = x
        · simp [y_eq, image, Option.filter_some]
        · cases image' : f y with
          | none => simp
          | some z' =>
            have : z' ≠ z := by
              rintro rfl
              exact y_eq (inj y x z' image' image)
            simp [y_eq, this, Option.filter_some]
      rw [List.filterMap_cons_some image, List.filterMap_cons_some image, rest, same,
        List.eraseDups_cons]
termination_by xs.length
decreasing_by exact Nat.lt_succ_of_le (List.length_filter_le _ _)

theorem Mirrors.getMany_eq (mirrors : Mirrors digest a others b l) (hs : List Digest) :
    b.getMany hs = (hs.filterMap b.get?).eraseDups := by
  have nodup : b.definitions.Nodup := mirrors.definitions_eq ▸ mirrors.nodup
  have inj : ∀ x y z, b.definitions[x]? = some z → b.definitions[y]? = some z → x = y :=
    fun x y z here there =>
      (List.getElem?_inj (List.getElem?_eq_some_iff.1 here).1 nodup).1 (here.trans there.symm)
  have found : ((hs.filterMap b.find?).map (·.1)).filterMap (fun place => b.definitions[place]?) =
      hs.filterMap b.get? := by
    rw [List.filterMap_map, List.filterMap_filterMap]
    refine List.filterMap_congr fun h _ => ?_
    cases known : b.find? h with
    | none => simp [get?, known]
    | some entry => simp [get?, known, (find?_eq_some_iff.1 known).2]
  unfold getMany
  dsimp only
  rw [filterMap_eraseDups inj, found]

theorem Mirrors.ofNegotiation_eq (mirrors : Mirrors digest a others b l) (id : NegotiationId) :
    b.ofNegotiation id = l.committed.filter (·.id == id) := by
  have entries : (b.listings.filter (·.1 == id)).filterMap (fun entry => b.definitions[entry.2]?) =
      ((b.listings.map fun entry => (entry.1, l.stored[entry.2]?)).filter (·.1 == id)).filterMap (·.2) := by
    rw [List.filter_map, List.filterMap_map, mirrors.definitions_eq]
    rfl
  have committed : ((l.committed.map fun m => (m.id, some m)).filter (·.1 == id)).filterMap (·.2) =
      l.committed.filter (·.id == id) := by
    rw [List.filter_map, List.filterMap_map]
    exact List.filterMap_some
  unfold ofNegotiation
  rw [← committed, ← mirrors.listings_eq, ← entries]

theorem keep_refused_iff : (∃ h, b.keep digest d = (.error (.hashCollision h), b)) ↔
    ∃ h ∈ d.message.names digest b.accepted, ∃ other, b.get? h = some other ∧ other ≠ d.message := by
  have refused_iff : (∃ e, b.store digest d.message d.listed = .error e) ↔
      ∃ h ∈ d.message.names digest b.accepted, ∃ other, b.get? h = some other ∧ other ≠ d.message := by
    rw [store_eq_error_iff]
    simp only [Message.names, List.mem_map, exists_exists_and_eq_and, get?_eq_some_iff]
    refine exists_congr fun a => and_congr_right fun _ => ?_
    rw [exists_comm]
    exact exists_congr fun other => exists_and_right
  rw [← refused_iff]
  obtain ⟨h, failed, kept⟩ | ⟨changed, b', stored, kept⟩ := keep_cases digest b d
  · exact iff_of_true ⟨h, kept⟩ ⟨_, failed⟩
  · rw [kept, stored]
    exact iff_of_false (by rintro ⟨h, ⟨⟩⟩) (by rintro ⟨e, ⟨⟩⟩)

theorem keep_available (placed : b.Placed) :
    (∃ h, b.keep digest d = (.error (.hashCollision h), b)) ∨
      ∃ changed b', b.keep digest d = (.ok changed, b') ∧
        ∀ h ∈ d.message.names digest b.accepted, b'.get? h = some d.message := by
  obtain ⟨h, -, kept⟩ | ⟨changed, b', stored, kept⟩ := keep_cases digest b d
  · exact .inl ⟨h, kept⟩
  · obtain ⟨place, missing, adds⟩ := store_eq_ok stored
    refine .inr ⟨changed, b', kept, fun h named => ?_⟩
    obtain ⟨a, accepted, rfl⟩ := List.mem_map.1 named
    exact get?_eq_some_iff.2 (adds.find? placed accepted)

theorem Mirrors.agrees (mirrors : Mirrors digest a others b l) : b.Agrees digest l where
  definitions_eq := mirrors.definitions_eq
  stored_nodup := mirrors.nodup
  committed_nodup := mirrors.committed_nodup
  committed_subset := mirrors.committed_subset
  size_eq := congrArg List.length mirrors.definitions_eq
  get?_iff h m := mirrors.accepted_eq ▸ mirrors.get?_iff
  contains_eq h := rfl
  unknown_eq hs := by simp [unknown, contains]
  getMany_eq := mirrors.getMany_eq
  ofNegotiation_eq := mirrors.ofNegotiation_eq
  refused_iff d := keep_refused_iff
  available d := keep_available mirrors.placed
  lasting ds h m := (keepAll_grows digest b ds).get?

/-- Whatever a bank is given, it answers as the ledger of it does. -/
theorem keepAll_agrees (digest : HashAlgorithm → List UInt8 → Digest) {accepted : List HashAlgorithm}
    (some_accepted : accepted ≠ []) (ds : List Deposit) :
    ((empty accepted).keepAll digest ds).1 = (Ledger.empty.keepAll digest accepted ds).1 ∧
      ((empty accepted).keepAll digest ds).2.Agrees digest (Ledger.empty.keepAll digest accepted ds).2 := by
  cases accepted with
  | nil => exact absurd rfl some_accepted
  | cons a others =>
    obtain ⟨results_eq, mirrors⟩ := (mirrors_empty digest a others).keepAll ds
    exact ⟨results_eq, mirrors.agrees⟩

end Bank

namespace Ledger

variable {digest : HashAlgorithm → List UInt8 → Digest} {accepted : List HashAlgorithm}
variable {l : Ledger} {d : Deposit} {ds : List Deposit} {ms ns : List Message} {m : Message}

def Separates (digest : HashAlgorithm → List UInt8 → Digest) (accepted : List HashAlgorithm)
    (ms : List Message) : Prop :=
  ∀ m ∈ ms, ∀ n ∈ ms, ∀ h ∈ m.names digest accepted, h ∈ n.names digest accepted → m = n

theorem Separates.mono (separates : Separates digest accepted ms) (subset : ns ⊆ ms) :
    Separates digest accepted ns :=
  fun m mem n mem' => separates m (subset mem) n (subset mem')

theorem eraseDups_concat (ms : List Message) (m : Message) : (ms ++ [m]).eraseDups =
    if ms.eraseDups.contains m then ms.eraseDups else ms.eraseDups ++ [m] := by
  rw [List.eraseDups_append, List.contains_eq_mem]
  by_cases old : m ∈ ms <;> simp [List.removeAll, old, List.eraseDups_cons]

theorem keep_of_separates (stored_eq : l.stored = ms.eraseDups) (committed_eq : l.committed = ns.eraseDups)
    (separates : Separates digest accepted (ms ++ [d.message])) :
    (∃ changed, (l.keep digest accepted d).1 = .ok changed) ∧
      (l.keep digest accepted d).2 = ⟨(ms ++ [d.message]).eraseDups,
        (ns ++ if d.listed then [d.message] else []).eraseDups⟩ := by
  have clear : (d.message.names digest accepted).find? (l.clashes digest accepted d.message) = none := by
    rw [List.find?_eq_none]
    intro h named
    rw [clashes, List.any_eq_true]
    rintro ⟨other, stored, ne⟩
    simp only [decide_not, Bool.and_eq_true, Bool.not_eq_eq_eq_not, Bool.not_true,
      decide_eq_false_iff_not, List.contains_iff_mem] at ne
    rw [stored_eq, List.mem_eraseDups] at stored
    exact ne.1 (separates other (by simp [stored]) d.message (by simp) h ne.2 named)
  unfold keep
  rw [clear]
  refine ⟨⟨_, rfl⟩, ?_⟩
  dsimp only
  rw [stored_eq, committed_eq, eraseDups_concat]
  congr 1
  · split <;> simp_all
  · cases d.listed with
    | false => simp
    | true =>
      rw [if_pos rfl, eraseDups_concat, Bool.true_and]
      split <;> simp_all

theorem keepAll_of_separates (ds : List Deposit) (stored_eq : l.stored = ms.eraseDups)
    (committed_eq : l.committed = ns.eraseDups)
    (separates : Separates digest accepted (ms ++ ds.map (·.message))) :
    (∀ result ∈ (l.keepAll digest accepted ds).1, ∃ changed, result = .ok changed) ∧
      (l.keepAll digest accepted ds).2 = ⟨(ms ++ ds.map (·.message)).eraseDups,
        (ns ++ (ds.filter (·.listed)).map (·.message)).eraseDups⟩ := by
  induction ds generalizing l ms ns with
  | nil =>
    obtain ⟨stored, committed⟩ := l
    subst stored_eq committed_eq
    simp [keepAll]
  | cons d ds ih =>
    have first : Separates digest accepted (ms ++ [d.message]) :=
      separates.mono ((List.Sublist.cons_cons d.message (List.nil_sublist _)).append_left ms).subset
    obtain ⟨done, next⟩ := keep_of_separates stored_eq committed_eq first
    obtain ⟨others, last⟩ := ih (l := (l.keep digest accepted d).2) (by rw [next]) (by rw [next])
      (by simpa using separates)
    unfold keepAll
    refine ⟨List.forall_mem_cons.2 ⟨done, others⟩, last.trans ?_⟩
    cases listed : d.listed <;> simp [listed]

end Ledger

namespace Sample

def blind (a : HashAlgorithm) (_ : List UInt8) : Digest :=
  ⟨a, List.replicate a.size 0, List.length_replicate⟩

def farewell (id : NegotiationId) : Message :=
  let who := blind .sha256 []
  .rejection ⟨id, who, who, who, .unsigned now .ed25519⟩

def deposits : List Deposit :=
  [⟨farewell 1, false⟩, ⟨farewell 1, false⟩, ⟨farewell 1, true⟩, ⟨farewell 2, true⟩, ⟨farewell 1, true⟩]

theorem collision_kept_out : [HashAlgorithm.sha512, .sha512] ≠ [] ∧
    ((Bank.empty [.sha512, .sha512]).keepAll blind deposits).1 =
      [.ok true, .ok false, .ok true, .error (.hashCollision (blind .sha512 [])), .ok false] ∧
    ((Bank.empty [.sha512, .sha512]).keepAll blind deposits).1 =
      (Ledger.empty.keepAll blind [.sha512, .sha512] deposits).1 ∧
    ((Bank.empty [.sha512, .sha512]).keepAll blind deposits).2.Agrees blind
      (Ledger.empty.keepAll blind [.sha512, .sha512] deposits).2 :=
  ⟨by decide, by decide, Bank.keepAll_agrees blind (by decide) deposits⟩

end Sample

end Parley
