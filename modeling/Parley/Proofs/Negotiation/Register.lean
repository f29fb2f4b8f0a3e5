import Parley.Negotiation.Register

namespace Parley

theorem PartyPair.of_eq_of_iff {a b c d : String} :
    PartyPair.of a b = .of c d ↔ a = c ∧ b = d ∨ a = d ∧ b = c := by
  constructor
  · intro same
    unfold of at same
    split at same <;> split at same <;> simp only [PartyPair.mk.injEq] at same
    · exact .inl same
    · exact .inr same
    · exact .inr same.symm
    · exact .inl same.symm
  · rintro (⟨rfl, rfl⟩ | ⟨rfl, rfl⟩)
    · rfl
    · exact of_comm a b

def Negotiation.key (n : Negotiation) : RegisterKey :=
  (n.pair, n.id)

theorem Negotiation.key_apply {n : Negotiation} {m : Message} {a : Party} :
    (n.apply m a).key = n.key := by
  cases m <;> rfl

theorem Negotiation.retired_apply {n : Negotiation} {m : Message} {a : Party} :
    (n.apply m a).retired = n.retired := by
  cases m <;> rfl

namespace Register

variable {r r' : Register} {key k : RegisterKey} {h : Handle} {n n' : Negotiation}
variable {P : Negotiation → Prop} {id : NegotiationId} {a b : Party}

def registered? (r : Register) (key : RegisterKey) : Option Negotiation :=
  (r.find? key).map (·.2)

def keys (r : Register) : List RegisterKey :=
  r.negotiations.map Negotiation.key

/-- That every key leads to a negotiation registered under it, and that something holds of every
negotiation there is or was. -/
structure Sound (P : Negotiation → Prop) (r : Register) : Prop where
  listed : ∀ key h, r.listed.lookup key = some h → ∃ n, r.negotiations[h]? = some n ∧ n.key = key
  holds : ∀ n ∈ r.negotiations, P n

/-- That what stands under one key is the only difference between two registers. -/
structure Differs (r r' : Register) (key : RegisterKey) (next : Option Negotiation) : Prop where
  at_key : r'.registered? key = next
  elsewhere : ∀ k, k ≠ key → r'.registered? k = r.registered? k

theorem Differs.trans {next next' : Option Negotiation} {r'' : Register}
    (first : r.Differs r' key next) (second : r'.Differs r'' key next') :
    r.Differs r'' key next' where
  at_key := second.at_key
  elsewhere k ne := (second.elsewhere k ne).trans (first.elsewhere k ne)

theorem Differs.cases {k : RegisterKey} (differs : r.Differs r' key (some n))
    (found : r'.registered? k = some n') :
    (k = key ∧ n' = n) ∨ (k ≠ key ∧ r.registered? k = some n') := by
  by_cases here : k = key
  · subst here
    exact .inl ⟨rfl, Option.some.inj (found.symm.trans differs.at_key)⟩
  · exact .inr ⟨here, (differs.elsewhere k here).symm.trans found⟩

theorem find?_eq_some_iff : r.find? key = some (h, n) ↔
    r.listed.lookup key = some h ∧ r.negotiations[h]? = some n := by
  unfold find?
  cases r.listed.lookup key with
  | none => simp
  | some h' =>
    cases found : r.negotiations[h']? with
    | none =>
      simp only [Option.bind_eq_bind, Option.bind_some, found, Option.bind_none, reduceCtorEq,
        Option.some.injEq, false_iff, not_and]
      rintro rfl
      simp [found]
    | some m =>
      simp only [Option.bind_eq_bind, Option.bind_some, found, Option.some.injEq, Prod.mk.injEq]
      constructor
      · rintro ⟨rfl, rfl⟩
        exact ⟨rfl, found⟩
      · rintro ⟨rfl, same⟩
        exact ⟨rfl, Option.some.inj (found.symm.trans same)⟩

theorem registered?_of_find? (found : r.find? key = some (h, n)) : r.registered? key = some n := by
  simp [registered?, found]

theorem registered?_eq_some (found : r.registered? key = some n) : ∃ h, r.find? key = some (h, n) := by
  unfold registered? at found
  obtain ⟨⟨h, m⟩, found', rfl⟩ := Option.map_eq_some_iff.1 found
  exact ⟨h, found'⟩

theorem find?_eq_none (missing : r.registered? key = none) : r.find? key = none :=
  Option.map_eq_none_iff.1 missing

theorem Sound.key_eq (sound : r.Sound P) (found : r.find? key = some (h, n)) : n.key = key := by
  obtain ⟨listed, place⟩ := find?_eq_some_iff.1 found
  obtain ⟨m, place', key_eq⟩ := sound.listed key h listed
  rw [place] at place'
  cases place'
  exact key_eq

theorem Sound.holds_of_find? (sound : r.Sound P) (found : r.find? key = some (h, n)) : P n :=
  sound.holds n (List.mem_of_getElem? (find?_eq_some_iff.1 found).2)

theorem mem_of_registered? (found : r.registered? key = some n) : n ∈ r.negotiations := by
  obtain ⟨h, found⟩ := registered?_eq_some found
  exact List.mem_of_getElem? (find?_eq_some_iff.1 found).2

theorem Sound.mem_keys (sound : r.Sound P) (found : r.registered? key = some n) : key ∈ r.keys := by
  obtain ⟨h, found⟩ := registered?_eq_some found
  rw [← sound.key_eq found]
  exact List.mem_map_of_mem (List.mem_of_getElem? (find?_eq_some_iff.1 found).2)

theorem Sound.key_unique (sound : r.Sound P) (found : r.find? key = some (h, n))
    (found' : r.find? k = some (h, n')) : k = key := by
  have same := (find?_eq_some_iff.1 found).2.symm.trans (find?_eq_some_iff.1 found').2
  cases same
  exact (sound.key_eq found').symm.trans (sound.key_eq found)

theorem getBy_eq_ok {a b : String} (got : r.getBy a b id = .ok (h, n)) :
    r.find? (.of a b, id) = some (h, n) := by
  unfold getBy at got
  split at got
  next known =>
    cases got
    exact known
  · cases got

theorem getBy_of_find? {a b : String} {entry : Handle × Negotiation}
    (found : r.find? (.of a b, id) = some entry) : r.getBy a b id = .ok entry := by
  simp only [getBy, found]

theorem getBy_comm {a b : String} (got : r.getBy a b id = .ok (h, n)) :
    r.getBy b a id = .ok (h, n) := by
  refine getBy_of_find? ?_
  rw [PartyPair.of_comm]
  exact getBy_eq_ok got

theorem registered?_eq_of_find? (same : r'.find? k = r.find? k) : r'.registered? k = r.registered? k := by
  simp only [registered?, same]

theorem sound_empty (attempts : Nat) (source : Nat → NegotiationId) :
    (empty attempts source).Sound P where
  listed key h listed := by simp [empty] at listed
  holds n mem := by cases mem

theorem registered?_empty (attempts : Nat) (source : Nat → NegotiationId) :
    (empty attempts source).registered? key = none := by
  simp [registered?, find?, empty]

section put

theorem find?_put (n' : Negotiation) (found : r.find? key = some (h, n)) : (r.put h n').find? key = some (h, n') := by
  obtain ⟨listed, place⟩ := find?_eq_some_iff.1 found
  refine find?_eq_some_iff.2 ⟨listed, ?_⟩
  simp [put, List.getElem?_set_self (List.getElem?_eq_some_iff.1 place).1]

theorem find?_put_of_ne (n' : Negotiation) (sound : r.Sound P) (found : r.find? key = some (h, n)) (ne : k ≠ key) :
    (r.put h n').find? k = r.find? k := by
  have other : ∀ h', r.listed.lookup k = some h' → h' ≠ h := by
    rintro h' listed rfl
    obtain ⟨m, place, -⟩ := sound.listed k h' listed
    exact ne (sound.key_unique found (find?_eq_some_iff.2 ⟨listed, place⟩))
  unfold find? put
  cases listed : r.listed.lookup k with
  | none => rfl
  | some h' => simp [List.getElem?_set_ne (other h' listed).symm]

theorem Sound.put (sound : r.Sound P) (found : r.find? key = some (h, n)) (key_eq : n'.key = key)
    (holds : P n') : (r.put h n').Sound P where
  listed k h' listed := by
    by_cases same : k = key
    · subst same
      have found' := find?_put n' found
      obtain ⟨listed', place⟩ := find?_eq_some_iff.1 found'
      cases listed.symm.trans listed'
      exact ⟨n', place, key_eq⟩
    · obtain ⟨m, place, m_key⟩ := sound.listed k h' listed
      have before : r.find? k = some (h', m) := find?_eq_some_iff.2 ⟨listed, place⟩
      have after := (find?_put_of_ne n' sound found same).trans before
      exact ⟨m, (find?_eq_some_iff.1 after).2, m_key⟩
  holds m mem := by
    obtain mem | rfl := List.mem_or_eq_of_mem_set mem
    · exact sound.holds m mem
    · exact holds

theorem differs_put (n' : Negotiation) (sound : r.Sound P) (found : r.find? key = some (h, n)) :
    r.Differs (r.put h n') key (some n') where
  at_key := registered?_of_find? (find?_put n' found)
  elsewhere _ ne := registered?_eq_of_find? (find?_put_of_ne n' sound found ne)

theorem keys_put (sound : r.Sound P) (found : r.find? key = some (h, n)) (key_eq : n'.key = key) :
    (r.put h n').keys = r.keys := by
  obtain ⟨inside, place⟩ := List.getElem?_eq_some_iff.1 (find?_eq_some_iff.1 found).2
  unfold keys put
  rw [List.map_set, key_eq, ← sound.key_eq found, ← place, ← List.getElem_map Negotiation.key]
  · exact List.set_getElem_self (by simpa using inside)

end put

section insert

theorem find?_insert (r : Register) (id : NegotiationId) (a b : Party) : (r.insert id a b).2.find? ((Negotiation.start id a b).key) =
    some (r.negotiations.length, Negotiation.start id a b) := by
  refine find?_eq_some_iff.2 ⟨?_, ?_⟩
  · exact List.lookup_cons_self
  · simp [insert]

theorem find?_insert_of_ne (sound : r.Sound P) (ne : k ≠ (Negotiation.start id a b).key) :
    (r.insert id a b).2.find? k = r.find? k := by
  have skip : (r.insert id a b).2.listed.lookup k = r.listed.lookup k := by
    have other : (k == ((Negotiation.start id a b).pair, id)) = false := beq_eq_false_iff_ne.2 ne
    simp only [insert, List.lookup_cons, other]
  unfold find?
  rw [skip]
  cases listed : r.listed.lookup k with
  | none => rfl
  | some h =>
    obtain ⟨n, place, -⟩ := sound.listed k h listed
    have inside := (List.getElem?_eq_some_iff.1 place).1
    simp [insert, List.getElem?_append_left inside]

theorem Sound.insert (sound : r.Sound P) (holds : P (.start id a b)) :
    (r.insert id a b).2.Sound P where
  listed k h listed := by
    by_cases same : k = (Negotiation.start id a b).key
    · subst same
      obtain ⟨listed', place⟩ := find?_eq_some_iff.1 (find?_insert r id a b)
      cases listed.symm.trans listed'
      exact ⟨_, place, rfl⟩
    · unfold Register.insert at listed ⊢
      have other : (k == ((Negotiation.start id a b).pair, id)) = false :=
        beq_eq_false_iff_ne.2 same
      simp only [List.lookup_cons, other] at listed
      obtain ⟨n, place, key_eq⟩ := sound.listed k h listed
      have inside := (List.getElem?_eq_some_iff.1 place).1
      exact ⟨n, by simp [List.getElem?_append_left inside, place], key_eq⟩
  holds n mem := by
    obtain mem | mem := List.mem_append.1 mem
    · exact sound.holds n mem
    · rw [List.mem_singleton.1 mem]
      exact holds

theorem differs_insert (sound : r.Sound P) :
    r.Differs (r.insert id a b).2 (Negotiation.start id a b).key (some (.start id a b)) where
  at_key := registered?_of_find? (find?_insert r id a b)
  elsewhere _ ne := registered?_eq_of_find? (find?_insert_of_ne sound ne)

theorem keys_insert :
    (r.insert id a b).2.keys = r.keys ++ [(Negotiation.start id a b).key] := by
  simp [keys, insert]

end insert

section removeIfPristine

theorem lookup_filter_ne {β : Type} {l : List (RegisterKey × β)} :
    (l.filter fun entry => entry.1 ≠ key).lookup k = if k = key then none else l.lookup k := by
  induction l with
  | nil => simp
  | cons entry rest ih =>
    obtain ⟨key', value⟩ := entry
    by_cases drop : key' = key
    · subst drop
      rw [List.filter_cons_of_neg (by simp), ih]
      by_cases same : k = key'
      · simp [same]
      · simp [same, List.lookup_cons, beq_eq_false_iff_ne.2 same]
    · rw [List.filter_cons_of_pos (by simpa using drop), List.lookup_cons, List.lookup_cons]
      by_cases here : k = key'
      · subst here
        simp [drop]
      · simp only [beq_eq_false_iff_ne.2 here]
        exact ih

theorem removeIfPristine_eq (sound : r.Sound P) (found : r.find? key = some (h, n)) :
    (r.removeIfPristine h false).2 =
      if n.isPristine then
        { r.put h { n with retired := true } with
          listed := r.listed.filter fun entry => entry.1 ≠ key }
      else r := by
  have key_eq : (n.pair, n.id) = key := sound.key_eq found
  have place : r.get? h = some n := (find?_eq_some_iff.1 found).2
  unfold removeIfPristine
  simp only [place, key_eq, found]
  by_cases pristine : n.isPristine = true
  · simp [pristine]
  · simp [pristine]

def unlist (r : Register) (key : RegisterKey) : Register :=
  { r with listed := r.listed.filter fun entry => entry.1 ≠ key }

theorem find?_unlist : (r.unlist key).find? k = if k = key then none else r.find? k := by
  unfold find? unlist
  rw [lookup_filter_ne]
  split <;> rfl

theorem Sound.unlist (sound : r.Sound P) : (r.unlist key).Sound P where
  listed k h listed := by
    have listed' : (r.unlist key).listed.lookup k = some h := listed
    unfold Register.unlist at listed'
    rw [lookup_filter_ne] at listed'
    split at listed'
    · cases listed'
    · exact sound.listed k h listed'
  holds := sound.holds

theorem differs_unlist : r.Differs (r.unlist key) key none where
  at_key := by simp [registered?, find?_unlist]
  elsewhere k ne := registered?_eq_of_find? (by rw [find?_unlist, if_neg ne])

end removeIfPristine

theorem Sound.putBack (sound : r.Sound P) (found : r.find? key = some (h, n))
    (key_eq : n'.key = key) (holds : P n') (retire : P { n' with retired := true }) :
    ((r.put h n').removeIfPristine h false).2.Sound P ∧
      r.Differs ((r.put h n').removeIfPristine h false).2 key
        (if n'.isPristine then none else some n') ∧
      ((r.put h n').removeIfPristine h false).2.keys = r.keys := by
  have found' := find?_put n' found
  have sound' := sound.put found key_eq holds
  have differs := differs_put n' sound found
  have keys_eq := keys_put sound found key_eq
  rw [removeIfPristine_eq sound' found']
  by_cases pristine : n'.isPristine = true
  · rw [if_pos pristine, if_pos pristine]
    change (((r.put h n').put h { n' with retired := true }).unlist key).Sound P ∧
      r.Differs (((r.put h n').put h { n' with retired := true }).unlist key) key none ∧
      (((r.put h n').put h { n' with retired := true }).unlist key).keys = r.keys
    have retired_eq : { n' with retired := true }.key = key := key_eq
    refine ⟨(sound'.put found' retired_eq retire).unlist, ?_, ?_⟩
    · exact (differs.trans (differs_put _ sound' found')).trans differs_unlist
    · exact (keys_put sound' found' retired_eq).trans keys_eq
  · rw [if_neg pristine, if_neg pristine]
    exact ⟨sound', differs, keys_eq⟩

section draw

theorem drawId_fresh {pair : PartyPair} {attempts drawn drawn' : Nat}
    (drew : r.drawId pair attempts drawn = (some id, drawn')) : r.registered? (pair, id) = none := by
  induction attempts generalizing drawn with
  | zero => cases drew
  | succ attempts ih =>
    unfold drawId at drew
    dsimp only at drew
    split at drew
    · exact ih drew
    next unused =>
      cases drew
      simpa [registered?] using unused

theorem create_eq_ok (created : r.create a b = (.ok (h, n), r')) : ∃ id drawn,
    r.drawId (.of a.name b.name) r.attempts r.drawn = (some id, drawn) ∧
      ((h, n), r') = { r with drawn }.insert id a b := by
  unfold create at created
  split at created
  next id drawn drew =>
    cases created
    exact ⟨id, drawn, drew, rfl⟩
  · cases created

theorem create_eq_error {e : Error} (failed : r.create a b = (.error e, r')) :
    e = .idGenerationExhausted r.attempts ∧ ∃ drawn, r' = { r with drawn } := by
  unfold create at failed
  split at failed
  · cases failed
  next drawn exhausted =>
    cases failed
    exact ⟨rfl, drawn, rfl⟩

end draw

end Register

end Parley
