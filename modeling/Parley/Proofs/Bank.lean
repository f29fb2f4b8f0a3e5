import Mathlib.Data.List.Basic
import Parley.Bank
import Parley.Proofs.Directory

namespace Parley.Bank

variable {b b' b'' : Bank} {m : Message} {h : Digest} {hashes missing : List Digest}
variable {known : Option Nat} {changed list : Bool} {place : Nat} {e : Error} {a : HashAlgorithm}
variable {digest : HashAlgorithm → List UInt8 → Digest}

/-- That every name and every listing leads to a definition. -/
structure Placed (b : Bank) : Prop where
  names : ∀ entry ∈ b.names, entry.2 < b.definitions.length
  listings : ∀ entry ∈ b.listings, entry.2 < b.definitions.length

theorem placed_empty (accepted : List HashAlgorithm) : (empty accepted).Placed where
  names entry mem := by cases mem
  listings entry mem := by cases mem

/-- That one bank came from another by storing more. -/
structure Grows (b b' : Bank) : Prop where
  accepted_eq : b'.accepted = b.accepted
  definitions : b.definitions <+: b'.definitions
  named : ∀ h found, b.find? h = some found → b'.find? h = some found
  placed : b.Placed → b'.Placed

theorem Grows.refl : b.Grows b :=
  ⟨rfl, List.prefix_rfl, fun _ _ found => found, id⟩

theorem Grows.trans (first : b.Grows b') (second : b'.Grows b'') : b.Grows b'' where
  accepted_eq := second.accepted_eq.trans first.accepted_eq
  definitions := first.definitions.trans second.definitions
  named h found before := second.named h found (first.named h found before)
  placed placed := second.placed (first.placed placed)

theorem find?_eq_some_iff : b.find? h = some (place, m) ↔
    b.names.lookup h = some place ∧ b.definitions[place]? = some m := by
  simp only [find?, Option.bind_eq_bind, Option.bind_eq_some_iff, Option.some.injEq,
    Prod.mk.injEq]
  constructor
  · rintro ⟨_, named, _, there, rfl, rfl⟩
    exact ⟨named, there⟩
  · rintro ⟨named, there⟩
    exact ⟨place, named, m, there, rfl, rfl⟩

theorem Placed.lookup_eq_none (placed : b.Placed) (unknown : b.find? h = none) :
    b.names.lookup h = none := by
  cases named : b.names.lookup h with
  | none => rfl
  | some place =>
    have inside : place < b.definitions.length := by
      obtain ⟨l, r, names_eq, -⟩ := List.lookup_eq_some_iff.1 named
      exact placed.names (h, place) (names_eq ▸ by simp)
    have found : b.find? h = some (place, b.definitions[place]) :=
      find?_eq_some_iff.2 ⟨named, List.getElem?_eq_getElem inside⟩
    cases unknown.symm.trans found

theorem lookup_map_of_mem (mem : h ∈ hashes) :
    (hashes.map fun h => (h, place)).lookup h = some place := by
  induction hashes with
  | nil => cases mem
  | cons k rest ih =>
    rw [List.map_cons, List.lookup_cons]
    split
    · rfl
    next other =>
      refine ih ((List.mem_cons.1 mem).resolve_left fun same => ?_)
      simp [same] at other

theorem probe_cons_of_none (unknown : b.find? h = none) : b.probe m (h :: hashes) =
    (b.probe m hashes).map fun (known, missing) => (known, h :: missing) := by
  rw [probe, unknown]

theorem probe_cons_of_some {other : Message} (found : b.find? h = some (place, other)) :
    b.probe m (h :: hashes) =
      if other = m then
        (b.probe m hashes).map fun (known, missing) => (known.or (some place), missing)
      else .error h := by
  rw [probe, found]

theorem map_eq_ok_iff {ε α β : Type} {x : Except ε α} {f : α → β} {y : β} :
    x.map f = .ok y ↔ ∃ z, x = .ok z ∧ f z = y := by
  cases x <;> simp [Except.map]

theorem map_eq_error_iff {ε α β : Type} {x : Except ε α} {f : α → β} {e : ε} :
    x.map f = .error e ↔ x = .error e := by
  cases x <;> simp [Except.map]

theorem probe_eq_ok (probed : b.probe m hashes = .ok (known, missing)) :
    (∀ place, known = some place → b.definitions[place]? = some m) ∧ missing ⊆ hashes ∧
      (∀ h ∈ missing, b.find? h = none) ∧
      ∀ h ∈ hashes, h ∈ missing ∨ ∃ place, b.find? h = some (place, m) := by
  induction hashes generalizing known missing with
  | nil =>
    cases probed
    exact ⟨nofun, nofun, nofun, nofun⟩
  | cons h rest ih =>
    cases found : b.find? h with
    | none =>
      rw [probe_cons_of_none found, map_eq_ok_iff] at probed
      obtain ⟨⟨known', missing'⟩, tail, same⟩ := probed
      cases same
      obtain ⟨there, own, free, named⟩ := ih tail
      refine ⟨there, List.cons_subset_cons _ own, List.forall_mem_cons.2 ⟨found, free⟩,
        List.forall_mem_cons.2 ⟨.inl List.mem_cons_self, fun k mem => ?_⟩⟩
      exact (named k mem).imp_left (List.mem_cons_of_mem _)
    | some entry =>
      obtain ⟨place, other⟩ := entry
      rw [probe_cons_of_some found] at probed
      split at probed
      next same =>
        subst same
        rw [map_eq_ok_iff] at probed
        obtain ⟨⟨known', missing'⟩, tail, same⟩ := probed
        cases same
        obtain ⟨there, own, free, named⟩ := ih tail
        refine ⟨fun place' here => ?_, List.subset_cons_of_subset _ own, free,
          List.forall_mem_cons.2 ⟨.inr ⟨place, found⟩, named⟩⟩
        cases known' with
        | none =>
          cases here
          exact (find?_eq_some_iff.1 found).2
        | some place'' => exact there _ here
      · cases probed

theorem probe_eq_error_iff (b : Bank) (m : Message) (hashes : List Digest) :
    (∃ k, b.probe m hashes = .error k) ↔
      ∃ h ∈ hashes, ∃ place other, b.find? h = some (place, other) ∧ other ≠ m := by
  induction hashes with
  | nil => simp [probe]
  | cons h rest ih =>
    rw [List.exists_mem_cons_iff, ← ih]
    cases found : b.find? h with
    | none => simp [probe_cons_of_none found, map_eq_error_iff]
    | some entry =>
      obtain ⟨place, other⟩ := entry
      rw [probe_cons_of_some found]
      by_cases same : other = m
      · simp [same, map_eq_error_iff]
      · simp [same]

/-- What storing a definition adds to a bank: the definition, if it is new, names for it, and its
listing, if that is wanted and new. -/
structure Adds (digest : HashAlgorithm → List UInt8 → Digest) (b : Bank) (m : Message) (list : Bool)
    (b' : Bank) (place : Nat) (missing : List Digest) : Prop where
  accepted_eq : b'.accepted = b.accepted
  definitions : b.definitions <+: b'.definitions
  there : b'.definitions[place]? = some m
  names_eq : b'.names = b.names ++ missing.map fun h => (h, place)
  own : missing ⊆ b.accepted.map fun a => digest a m.canonicalBytes
  free : ∀ h ∈ missing, b.find? h = none
  named : ∀ a ∈ b.accepted, digest a m.canonicalBytes ∈ missing ∨
    ∃ place, b.find? (digest a m.canonicalBytes) = some (place, m)
  listings : b'.listings = b.listings ∨
    list = true ∧ b'.listings = b.listings ++ [(m.id, place)]

theorem store_eq_error (failed : b.store digest m list = .error e) : ∃ h, e = .hashCollision h := by
  unfold store at failed
  dsimp only at failed
  split at failed
  next h _ =>
    cases failed
    exact ⟨h, rfl⟩
  · split at failed
    · split at failed <;> cases failed
    · cases failed

theorem store_eq_ok (stored : b.store digest m list = .ok (changed, b')) :
    ∃ place missing, b.Adds digest m list b' place missing := by
  unfold store at stored
  dsimp only at stored
  split at stored
  · cases stored
  next known missing probed =>
    obtain ⟨there, own, free, named⟩ := probe_eq_ok probed
    have named' : ∀ a ∈ b.accepted, digest a m.canonicalBytes ∈ missing ∨
        ∃ place, b.find? (digest a m.canonicalBytes) = some (place, m) := fun a mem =>
      named _ (List.mem_map_of_mem mem)
    have longer : b.definitions <+: if known.isNone then b.definitions ++ [m] else b.definitions := by
      split
      · exact List.prefix_append _ _
      · exact List.prefix_rfl
    have here : (if known.isNone then b.definitions ++ [m] else b.definitions)[known.getD
        b.definitions.length]? = some m := by
      cases known with
      | none => simp
      | some place => simpa using there place rfl
    refine ⟨known.getD b.definitions.length, missing, ?_⟩
    split at stored
    · split at stored
      next wanted =>
        cases stored
        simp only [Bool.and_eq_true] at wanted
        exact ⟨rfl, longer, here, rfl, own, free, named', .inr ⟨wanted.1, rfl⟩⟩
      · cases stored
        exact ⟨rfl, longer, here, rfl, own, free, named', .inl rfl⟩
    · cases stored
      exact ⟨rfl, longer, here, rfl, own, free, named', .inl rfl⟩

/-- A definition is kept out exactly if one of its digests names another one. -/
theorem store_eq_error_iff : (∃ e, b.store digest m list = .error e) ↔ ∃ a ∈ b.accepted,
    ∃ place other, b.find? (digest a m.canonicalBytes) = some (place, other) ∧ other ≠ m := by
  have probes := b.probe_eq_error_iff m (b.accepted.map fun a => digest a m.canonicalBytes)
  simp only [List.mem_map, exists_exists_and_eq_and] at probes
  rw [← probes]
  unfold store
  dsimp only
  constructor
  · rintro ⟨e, failed⟩
    split at failed
    next h probed => exact ⟨h, probed⟩
    · split at failed
      · split at failed <;> cases failed
      · cases failed
  · rintro ⟨h, probed⟩
    rw [probed]
    exact ⟨_, rfl⟩

variable {missing : List Digest}

theorem Adds.lt_length (adds : b.Adds digest m list b' place missing) {place' : Nat}
    (lt : place' < b.definitions.length) : place' < b'.definitions.length :=
  Nat.lt_of_lt_of_le lt adds.definitions.length_le

theorem Adds.placed (adds : b.Adds digest m list b' place missing) (placed : b.Placed) :
    b'.Placed where
  names entry mem := by
    rw [adds.names_eq] at mem
    obtain mem | mem := List.mem_append.1 mem
    · exact adds.lt_length (placed.names entry mem)
    · obtain ⟨h, -, rfl⟩ := List.mem_map.1 mem
      exact (List.getElem?_eq_some_iff.1 adds.there).1
  listings entry mem := by
    obtain same | ⟨-, listings_eq⟩ := adds.listings
    · exact adds.lt_length (placed.listings entry (same ▸ mem))
    · rw [listings_eq] at mem
      obtain mem | mem := List.mem_append.1 mem
      · exact adds.lt_length (placed.listings entry mem)
      · rw [List.mem_singleton.1 mem]
        exact (List.getElem?_eq_some_iff.1 adds.there).1

theorem Adds.grows (adds : b.Adds digest m list b' place missing) : b.Grows b' where
  accepted_eq := adds.accepted_eq
  definitions := adds.definitions
  named h found before := by
    obtain ⟨place', m'⟩ := found
    obtain ⟨named, there⟩ := find?_eq_some_iff.1 before
    have inside := (List.getElem?_eq_some_iff.1 there).1
    obtain ⟨longer, definitions_eq⟩ := adds.definitions
    refine find?_eq_some_iff.2 ⟨?_, ?_⟩
    · simp [adds.names_eq, List.lookup_append, named]
    · rw [← definitions_eq, List.getElem?_append_left inside]
      exact there
  placed := adds.placed

theorem Adds.find? (adds : b.Adds digest m list b' place missing) (placed : b.Placed)
    (accepted : a ∈ b.accepted) :
    ∃ place, b'.find? (digest a m.canonicalBytes) = some (place, m) := by
  obtain new | ⟨place', found⟩ := adds.named a accepted
  · refine ⟨place, find?_eq_some_iff.2 ⟨?_, adds.there⟩⟩
    have unnamed := placed.lookup_eq_none (adds.free _ new)
    rw [adds.names_eq, List.lookup_append, unnamed, Option.none_or]
    exact lookup_map_of_mem new
  · exact ⟨place', adds.grows.named _ _ found⟩

theorem addFetched_eq_ok (stored : b.addFetched m = .ok (changed, b')) :
    b.Grows b' ∧ b'.listings = b.listings := by
  obtain ⟨place, missing, adds⟩ := store_eq_ok stored
  obtain same | ⟨wanted, -⟩ := adds.listings
  · exact ⟨adds.grows, same⟩
  · cases wanted

theorem Grows.filterMap_listings (grows : b.Grows b') {id : NegotiationId} (placed : b.Placed) :
    ((b.listings.filter (·.1 == id)).filterMap fun (_, place) => b'.definitions[place]?) =
      b.ofNegotiation id := by
  unfold ofNegotiation
  refine List.filterMap_congr fun entry mem => ?_
  have inside := placed.listings entry (List.mem_of_mem_filter mem)
  obtain ⟨more, definitions_eq⟩ := grows.definitions
  rw [← definitions_eq]
  exact List.getElem?_append_left inside

theorem Grows.ofNegotiation_eq (grows : b.Grows b') {id : NegotiationId} (placed : b.Placed)
    (same : b'.listings = b.listings) : b'.ofNegotiation id = b.ofNegotiation id := by
  rw [← grows.filterMap_listings placed]
  unfold ofNegotiation
  rw [same]

theorem Adds.ofNegotiation (adds : b.Adds digest m list b' place missing) (placed : b.Placed)
    (id : NegotiationId) : b'.ofNegotiation id = b.ofNegotiation id ∨
      list = true ∧ m.id = id ∧ b'.ofNegotiation id = b.ofNegotiation id ++ [m] := by
  obtain same | ⟨wanted, listings_eq⟩ := adds.listings
  · exact .inl (adds.grows.ofNegotiation_eq placed same)
  · rw [← adds.grows.filterMap_listings placed, Bank.ofNegotiation, listings_eq, List.filter_append,
      List.filterMap_append]
    by_cases here : m.id = id
    · exact .inr ⟨wanted, here, by simp [here, adds.there]⟩
    · exact .inl (by simp [here])

def Stores (b : Bank) (m : Message) (b' : Bank) : Prop :=
  ∃ changed b₁, b.add m = .ok (changed, b₁) ∧ b₁.Grows b' ∧ b'.listings = b₁.listings

theorem Stores.grows (stores : b.Stores m b') : b.Grows b' := by
  obtain ⟨changed, b₁, added, grows, -⟩ := stores
  obtain ⟨place, missing, adds⟩ := store_eq_ok added
  exact adds.grows.trans grows

theorem Stores.find? (stores : b.Stores m b') (placed : b.Placed) (accepted : a ∈ b.accepted) :
    ∃ place, b'.find? (.of a m.canonicalBytes) = some (place, m) := by
  obtain ⟨changed, b₁, added, grows, -⟩ := stores
  obtain ⟨place, missing, adds⟩ := store_eq_ok added
  obtain ⟨place, found⟩ := adds.find? placed accepted
  exact ⟨place, grows.named _ _ found⟩

theorem Stores.ofNegotiation (stores : b.Stores m b') (placed : b.Placed) (id : NegotiationId) :
    b'.ofNegotiation id = b.ofNegotiation id ∨
      m.id = id ∧ b'.ofNegotiation id = b.ofNegotiation id ++ [m] := by
  obtain ⟨changed, b₁, added, grows, listings_eq⟩ := stores
  obtain ⟨place, missing, adds⟩ := store_eq_ok added
  rw [grows.ofNegotiation_eq (adds.placed placed) listings_eq]
  exact (adds.ofNegotiation placed id).imp_right And.right

end Parley.Bank
