import Mathlib.Data.List.Nodup
import Parley.Proofs.Negotiation.Onward

namespace Parley.Register

variable {r r' : Register} {key k : RegisterKey} {h : Handle} {n n' : Negotiation}
variable {id : NegotiationId} {a b : Party}

/-- What may be done with a register and the handles it gave. -/
inductive Access where
  | create (a b : Party)
  | getOrCreate (a b : Party) (id : NegotiationId)
  | getBy (a b : String) (id : NegotiationId)
  | removeIfPristine (h : Handle) (busy : Bool)
  | update (h : Handle) (deed : Negotiation.Deed)

def update (r : Register) (h : Handle) (deed : Negotiation.Deed) : Register :=
  match r.get? h with
  | some n => r.put h (n.after deed)
  | none => r

def access (r : Register) : Access → Register
  | .create a b => (r.create a b).2
  | .getOrCreate a b id => (r.getOrCreate a b id).2
  | .getBy _ _ _ => r
  | .removeIfPristine h busy => (r.removeIfPristine h busy).2
  | .update h deed => r.update h deed

def serve (r : Register) (accesses : List Access) : Register :=
  accesses.foldl access r

theorem get?_put (place : r.get? h = some n) (k : Handle) :
    (r.put h n').get? k = if k = h then some n' else r.get? k := by
  have inside := (List.getElem?_eq_some_iff.1 place).1
  by_cases same : k = h
  · subst same
    simp [get?, put, List.getElem?_set_self inside]
  · simp [get?, put, List.getElem?_set_ne (Ne.symm same), same]

theorem get?_insert (k : Handle) : (r.insert id a b).2.get? k =
    if k = r.negotiations.length then some (.start id a b) else r.get? k := by
  by_cases new : k = r.negotiations.length
  · simp [insert, get?, new]
  · rw [if_neg new]
    by_cases inside : k < r.negotiations.length
    · simp [insert, get?, List.getElem?_append_left inside]
    · have outside : r.negotiations.length < k := by
        rcases Nat.lt_trichotomy k r.negotiations.length with less | same | more
        · exact absurd less inside
        · exact absurd same new
        · exact more
      simp [insert, get?, outside, outside.le]

theorem get?_length : r.get? r.negotiations.length = none := by
  simp [get?]

structure Tidy (r : Register) : Prop where
  lookup_iff : ∀ key h, r.listed.lookup key = some h ↔
    ∃ n, r.get? h = some n ∧ n.key = key ∧ n.retired = false
  distinct : (r.listed.map Prod.fst).Nodup
  blank : ∀ n ∈ r.negotiations, n.status = .initial → n.Blank
  gone : ∀ n ∈ r.negotiations, n.retired = true → n.status = .initial
  size_eq : r.size = r.negotiations.countP fun n => !n.retired

theorem tidy_empty (attempts : Nat) (source : Nat → NegotiationId) : (empty attempts source).Tidy where
  lookup_iff key h := by simp [empty, get?]
  distinct := List.nodup_nil
  blank n mem := by cases mem
  gone n mem := by cases mem
  size_eq := rfl

theorem Tidy.find?_iff (tidy : r.Tidy) : r.find? key = some (h, n) ↔
    r.get? h = some n ∧ n.key = key ∧ n.retired = false := by
  rw [find?_eq_some_iff, tidy.lookup_iff]
  constructor
  · rintro ⟨⟨n', place', key_eq, live⟩, place⟩
    obtain rfl := Option.some.inj (place'.symm.trans place)
    exact ⟨place, key_eq, live⟩
  · rintro ⟨place, key_eq, live⟩
    exact ⟨⟨n, place, key_eq, live⟩, place⟩

theorem Tidy.put (tidy : r.Tidy) (place : r.get? h = some n) (follows : n.Follows n')
    (retired_eq : n'.retired = n.retired) (blank : n'.status = .initial → n'.Blank) :
    (r.put h n').Tidy where
  lookup_iff key h' := by
    change r.listed.lookup key = some h' ↔ _
    rw [tidy.lookup_iff, get?_put place]
    split
    next same =>
      subst same
      constructor
      · rintro ⟨n₀, place', key_eq, live⟩
        obtain rfl := Option.some.inj (place.symm.trans place')
        exact ⟨n', rfl, follows.key_eq.trans key_eq, retired_eq.trans live⟩
      · rintro ⟨_, ⟨⟩, key_eq, live⟩
        exact ⟨n, place, follows.key_eq.symm.trans key_eq, retired_eq.symm.trans live⟩
    · rfl
  distinct := tidy.distinct
  blank m mem := by
    obtain mem | rfl := List.mem_or_eq_of_mem_set mem
    · exact tidy.blank m mem
    · exact blank
  gone m mem := by
    obtain mem | rfl := List.mem_or_eq_of_mem_set mem
    · exact tidy.gone m mem
    · intro retired
      have before := retired_eq.symm.trans retired
      rw [follows.gone before]
      exact tidy.gone n (List.mem_of_getElem? place) before
  size_eq := by
    obtain ⟨inside, place⟩ := List.getElem?_eq_some_iff.1 place
    change r.size = (r.negotiations.set h n').countP _
    rw [List.countP_set inside, place, retired_eq, tidy.size_eq]
    cases live : n.retired with
    | true => simp
    | false =>
      have counted : 0 < r.negotiations.countP fun n => !n.retired :=
        List.countP_pos_iff.2 ⟨n, place ▸ List.getElem_mem inside, by simp [live]⟩
      simp only [Bool.not_false, if_true]
      omega

theorem Tidy.insert (tidy : r.Tidy) (missing : r.registered? (Negotiation.start id a b).key = none) :
    (r.insert id a b).2.Tidy where
  lookup_iff key h := by
    rw [get?_insert]
    by_cases new : key = (Negotiation.start id a b).key
    · subst new
      have found := (find?_eq_some_iff.1 (find?_insert r id a b)).1
      rw [found]
      constructor
      · rintro ⟨⟩
        exact ⟨_, if_pos rfl, rfl, rfl⟩
      · rintro ⟨n, place, key_eq, live⟩
        split at place
        next last => rw [last]
        · have known := registered?_of_find? (tidy.find?_iff.2 ⟨place, key_eq, live⟩)
          rw [missing] at known
          cases known
    · have other : (key == ((Negotiation.start id a b).pair, id)) = false :=
        beq_eq_false_iff_ne.2 new
      have skip : (r.insert id a b).2.listed.lookup key = r.listed.lookup key := by
        simp only [Register.insert, List.lookup_cons, other]
      rw [skip, tidy.lookup_iff]
      split
      next last =>
        subst last
        rw [get?_length]
        constructor
        · rintro ⟨_, ⟨⟩, -⟩
        · rintro ⟨_, ⟨⟩, key_eq, -⟩
          exact absurd key_eq.symm new
      · rfl
  distinct := by
    refine List.nodup_cons.2 ⟨fun mem => ?_, tidy.distinct⟩
    obtain ⟨entry, mem, same⟩ := List.mem_map.1 mem
    have listed : (r.listed.lookup entry.1).isSome = true :=
      List.lookup_isSome_iff.2 ⟨entry, mem, beq_self_eq_true _⟩
    rw [same] at listed
    obtain ⟨h, listed⟩ := Option.isSome_iff_exists.1 listed
    obtain ⟨n, place, key_eq, live⟩ := (tidy.lookup_iff _ _).1 listed
    have known := registered?_of_find? (tidy.find?_iff.2 ⟨place, key_eq, live⟩)
    cases missing.symm.trans known
  blank n mem := by
    obtain mem | mem := List.mem_append.1 mem
    · exact tidy.blank n mem
    · rw [List.mem_singleton.1 mem]
      exact fun _ => ⟨rfl, rfl, rfl, rfl⟩
  gone n mem := by
    obtain mem | mem := List.mem_append.1 mem
    · exact tidy.gone n mem
    · rw [List.mem_singleton.1 mem]
      rintro ⟨⟩
  size_eq := by
    have size_eq := tidy.size_eq
    change r.listed.length + 1 = (r.negotiations ++ [Negotiation.start id a b]).countP _
    rw [List.countP_append, ← size_eq]
    rfl

theorem length_filter_ne {l : List (RegisterKey × Handle)} (distinct : (l.map Prod.fst).Nodup)
    (listed : l.lookup key = some h) : (l.filter fun entry => entry.1 ≠ key).length + 1 = l.length := by
  induction l with
  | nil => cases listed
  | cons entry rest ih =>
    rw [List.map_cons, List.nodup_cons] at distinct
    rw [List.lookup_cons] at listed
    by_cases here : entry.1 = key
    · have others : rest.filter (fun entry => entry.1 ≠ key) = rest := by
        refine List.filter_eq_self.2 fun other mem => decide_eq_true fun same => distinct.1 ?_
        rw [here, ← same]
        exact List.mem_map_of_mem mem
      rw [List.filter_cons_of_neg (by simpa using here), others, List.length_cons]
    · have other : (key == entry.1) = false := beq_eq_false_iff_ne.2 (Ne.symm here)
      rw [other] at listed
      rw [List.filter_cons_of_pos (by simpa using here), List.length_cons, List.length_cons,
        ih distinct.2 listed]

theorem Tidy.removeIfPristine_eq (tidy : r.Tidy) (place : r.get? h = some n) (busy : Bool) :
    r.removeIfPristine h busy = if busy = false ∧ n.isPristine = true then
      (true, (r.put h { n with retired := true }).unlist n.key) else (false, r) := by
  have found : n.isPristine = true → (r.find? (n.pair, n.id)).map (·.1) = some h := by
    intro pristine
    have live : n.retired = false := by
      simp only [Negotiation.isPristine, Bool.and_eq_true, Bool.not_eq_true'] at pristine
      exact pristine.1.1
    have found : r.find? (n.pair, n.id) = some (h, n) := tidy.find?_iff.2 ⟨place, rfl, live⟩
    rw [found]
    rfl
  unfold removeIfPristine
  rw [place]
  by_cases pristine : n.isPristine = true
  · cases busy with
    | true => simp
    | false =>
      simp only [found pristine, pristine, decide_true, Bool.not_false, Bool.and_true, if_true,
        and_self]
      rfl
  · simp [pristine]

theorem isPristine_iff : n.isPristine = true ↔
    n.retired = false ∧ n.status = .initial ∧ n.offers = [] := by
  simp [Negotiation.isPristine, and_assoc]

theorem Tidy.discard (tidy : r.Tidy) (place : r.get? h = some n) (live : n.retired = false)
    (initial : n.status = .initial) : ((r.put h { n with retired := true }).unlist n.key).Tidy where
  lookup_iff key h' := by
    have get?_eq : ((r.put h { n with retired := true }).unlist n.key).get? h' =
      if h' = h then some { n with retired := true } else r.get? h' := get?_put place h'
    rw [get?_eq]
    unfold unlist Register.put
    rw [lookup_filter_ne]
    by_cases here : key = n.key
    · rw [if_pos here]
      refine ⟨nofun, ?_⟩
      rintro ⟨m, place', key_eq, live'⟩
      split at place'
      · cases place'
        cases live'
      next other =>
        -- two handles are never listed under one key
        have listed := (tidy.lookup_iff n.key h).2 ⟨n, place, rfl, live⟩
        have listed' := (tidy.lookup_iff n.key h').2 ⟨m, place', key_eq.trans here, live'⟩
        exact absurd (Option.some.inj (listed'.symm.trans listed)) other
    · rw [if_neg here, tidy.lookup_iff]
      split
      next same =>
        subst same
        constructor
        · rintro ⟨m, place', key_eq, -⟩
          obtain rfl := Option.some.inj (place.symm.trans place')
          exact absurd key_eq.symm here
        · rintro ⟨_, ⟨⟩, -, ⟨⟩⟩
      · rfl
  distinct := tidy.distinct.sublist (List.filter_sublist.map _)
  blank m mem := by
    obtain mem | rfl := List.mem_or_eq_of_mem_set mem
    · exact tidy.blank m mem
    · intro _
      obtain ⟨offers, acceptance, rejection, active⟩ :=
        tidy.blank n (List.mem_of_getElem? place) initial
      exact ⟨offers, acceptance, rejection, active⟩
  gone m mem := by
    obtain mem | rfl := List.mem_or_eq_of_mem_set mem
    · exact tidy.gone m mem
    · exact fun _ => initial
  size_eq := by
    have listed := (tidy.lookup_iff n.key h).2 ⟨n, place, rfl, live⟩
    have shorter := length_filter_ne tidy.distinct listed
    have size_eq : r.listed.length = _ := tidy.size_eq
    obtain ⟨inside, place⟩ := List.getElem?_eq_some_iff.1 place
    change (r.listed.filter fun entry => entry.1 ≠ n.key).length =
      (r.negotiations.set h { n with retired := true }).countP _
    rw [List.countP_set inside, place, live]
    simp only [Bool.not_false, if_true, Bool.not_true, Bool.false_eq_true, if_false]
    omega

theorem Tidy.withDrawn (tidy : r.Tidy) (drawn : Nat) : { r with drawn }.Tidy :=
  ⟨tidy.lookup_iff, tidy.distinct, tidy.blank, tidy.gone, tidy.size_eq⟩

def Uses (r : Register) (a b : Party) (id : NegotiationId) : Prop :=
  (r.find? (.of a.name b.name, id)).isSome = true

theorem not_uses_iff : ¬ r.Uses a b id ↔ r.registered? (.of a.name b.name, id) = none := by
  simp [Uses, registered?]

theorem drawId_cases (r : Register) (a b : Party) (attempts drawn : Nat) :
    (∃ k < attempts, (∀ j < k, r.Uses a b (r.source (drawn + j))) ∧
      ¬ r.Uses a b (r.source (drawn + k)) ∧
      r.drawId (.of a.name b.name) attempts drawn =
        (some (r.source (drawn + k)), drawn + k + 1)) ∨
    (∀ j < attempts, r.Uses a b (r.source (drawn + j))) ∧
      r.drawId (.of a.name b.name) attempts drawn = (none, drawn + attempts) := by
  induction attempts generalizing drawn with
  | zero => exact .inr ⟨nofun, rfl⟩
  | succ attempts ih =>
    by_cases used : r.Uses a b (r.source drawn)
    · have next : r.drawId (.of a.name b.name) (attempts + 1) drawn =
          r.drawId (.of a.name b.name) attempts (drawn + 1) := by
        rw [drawId]
        exact if_pos used
      have shift (j : Nat) : drawn + 1 + j = drawn + (j + 1) := by omega
      have before {k : Nat} (used' : ∀ j < k, r.Uses a b (r.source (drawn + 1 + j))) :
          ∀ j < k + 1, r.Uses a b (r.source (drawn + j)) := by
        intro j less
        cases j with
        | zero => exact used
        | succ j =>
          rw [← shift]
          exact used' j (by omega)
      rw [next]
      obtain ⟨k, less, used', free, drew⟩ | ⟨used', drew⟩ := ih (drawn + 1)
      · rw [shift] at free drew
        exact .inl ⟨k + 1, by omega, before used', free, drew⟩
      · rw [shift] at drew
        exact .inr ⟨before used', drew⟩
    · refine .inl ⟨0, by omega, nofun, used, ?_⟩
      rw [drawId]
      exact if_neg used

theorem create_of_drawId {drawn : Nat}
    (drew : r.drawId (.of a.name b.name) r.attempts r.drawn = (some id, drawn)) :
    r.create a b = (.ok (r.negotiations.length, .start id a b), ({ r with drawn }.insert id a b).2) := by
  rw [create, drew]
  rfl

theorem create_of_exhausted {drawn : Nat}
    (drew : r.drawId (.of a.name b.name) r.attempts r.drawn = (none, drawn)) :
    r.create a b = (.error (.idGenerationExhausted r.attempts), { r with drawn }) := by
  rw [create, drew]

def Carries (R : Negotiation → Negotiation → Prop) (r r' : Register) : Prop :=
  ∀ h n, r.get? h = some n → ∃ n', r'.get? h = some n' ∧ R n n'

section carries

variable {R : Negotiation → Negotiation → Prop}

theorem Carries.of_get? (refl : ∀ n, R n n) (same : ∀ h n, r.get? h = some n → r'.get? h = some n) :
    Carries R r r' :=
  fun h n place => ⟨n, same h n place, refl n⟩

theorem carries_put (refl : ∀ n, R n n) (place : r.get? h = some n) (step : R n n') :
    Carries R r (r.put h n') := by
  intro k m place'
  rw [get?_put place]
  split
  next same =>
    subst same
    obtain rfl := Option.some.inj (place.symm.trans place')
    exact ⟨n', rfl, step⟩
  · exact ⟨m, place', refl m⟩

theorem get?_insert_of_some (place : r.get? h = some n) : (r.insert id a b).2.get? h = some n := by
  rw [get?_insert, if_neg]
  · exact place
  · rintro rfl
    rw [get?_length] at place
    cases place

theorem Tidy.carries_access (tidy : r.Tidy) (refl : ∀ n, R n n)
    (discard : ∀ n, n.retired = false → n.status = .initial → R n { n with retired := true })
    (access : Access) (update : ∀ h deed, access = .update h deed → ∀ n, R n (n.after deed)) :
    Carries R r (r.access access) := by
  cases access with
  | create a b =>
    refine .of_get? refl fun h n place => ?_
    obtain ⟨k, -, -, -, drew⟩ | ⟨-, drew⟩ := r.drawId_cases a b r.attempts r.drawn
    · rw [Register.access, create_of_drawId drew]
      exact get?_insert_of_some place
    · rw [Register.access, create_of_exhausted drew]
      exact place
  | getOrCreate a b id =>
    refine .of_get? refl fun h n place => ?_
    rw [Register.access, getOrCreate]
    split
    · exact place
    · exact get?_insert_of_some place
  | getBy a b id => exact .of_get? refl fun _ _ place => place
  | removeIfPristine h busy =>
    rw [Register.access]
    cases place : r.get? h with
    | none =>
      have same : (r.removeIfPristine h busy).2 = r := by simp [removeIfPristine, place]
      rw [same]
      exact .of_get? refl fun _ _ place => place
    | some n =>
      rw [tidy.removeIfPristine_eq place]
      split
      next idle =>
        obtain ⟨live, initial, -⟩ := isPristine_iff.1 idle.2
        exact carries_put refl place (discard n live initial)
      · exact .of_get? refl fun _ _ place => place
  | update h deed =>
    rw [Register.access, Register.update]
    split
    next n place => exact carries_put refl place (update h deed rfl n)
    · exact .of_get? refl fun _ _ place => place

end carries

theorem Tidy.create (tidy : r.Tidy) (a b : Party) : (r.create a b).2.Tidy := by
  obtain ⟨k, -, -, free, drew⟩ | ⟨-, drew⟩ := r.drawId_cases a b r.attempts r.drawn
  · rw [create_of_drawId drew]
    exact (tidy.withDrawn _).insert (not_uses_iff.1 free)
  · rw [create_of_exhausted drew]
    exact tidy.withDrawn _

theorem Tidy.getOrCreate (tidy : r.Tidy) (a b : Party) (id : NegotiationId) :
    (r.getOrCreate a b id).2.Tidy := by
  unfold Register.getOrCreate
  split
  · exact tidy
  next missing =>
    refine tidy.insert (Option.map_eq_none_iff.2 ?_)
    exact missing

theorem Tidy.removeIfPristine (tidy : r.Tidy) (h : Handle) (busy : Bool) :
    (r.removeIfPristine h busy).2.Tidy := by
  cases place : r.get? h with
  | none =>
    have same : (r.removeIfPristine h busy).2 = r := by simp [Register.removeIfPristine, place]
    rwa [same]
  | some n =>
    rw [tidy.removeIfPristine_eq place]
    split
    next idle =>
      obtain ⟨live, initial, -⟩ := isPristine_iff.1 idle.2
      exact tidy.discard place live initial
    · exact tidy

theorem Tidy.update (tidy : r.Tidy) (h : Handle) (deed : Negotiation.Deed) :
    (r.update h deed).Tidy := by
  unfold Register.update
  split
  next n place =>
    have blank := tidy.blank n (List.mem_of_getElem? place)
    exact tidy.put place (n.after_follows deed) (n.retired_after deed)
      (Negotiation.blank_after blank)
  · exact tidy

theorem Tidy.access (tidy : r.Tidy) (access : Access) : (r.access access).Tidy := by
  cases access with
  | create a b => exact tidy.create a b
  | getOrCreate a b id => exact tidy.getOrCreate a b id
  | getBy a b id => exact tidy
  | removeIfPristine h busy => exact tidy.removeIfPristine h busy
  | update h deed => exact tidy.update h deed

theorem Tidy.follows_access (tidy : r.Tidy) (access : Access) :
    Carries Negotiation.Follows r (r.access access) :=
  tidy.carries_access (fun _ => .refl) (fun _ => Negotiation.follows_retire) access
    fun _ deed _ n => n.after_follows deed

theorem attempts_access (r : Register) (access : Access) : (r.access access).attempts = r.attempts := by
  cases access with
  | create a b =>
    obtain ⟨k, -, -, -, drew⟩ | ⟨-, drew⟩ := r.drawId_cases a b r.attempts r.drawn
    · rw [Register.access, create_of_drawId drew]
      rfl
    · rw [Register.access, create_of_exhausted drew]
  | getOrCreate a b id =>
    rw [Register.access, getOrCreate]
    split <;> rfl
  | getBy a b id => rfl
  | removeIfPristine h busy =>
    rw [Register.access, Register.removeIfPristine]
    split
    · rfl
    · split <;> rfl
  | update h deed =>
    rw [Register.access, Register.update]
    split <;> rfl

structure Leads (r r' : Register) : Prop where
  tidy : r'.Tidy
  attempts_eq : r'.attempts = r.attempts
  carries : Carries Negotiation.Follows r r'

theorem Tidy.leads_serve (tidy : r.Tidy) (accesses : List Access) : r.Leads (r.serve accesses) := by
  induction accesses generalizing r with
  | nil => exact ⟨tidy, rfl, fun h n place => ⟨n, place, .refl⟩⟩
  | cons access rest ih =>
    obtain ⟨tidy', attempts_eq, carries⟩ := ih (tidy.access access)
    refine ⟨tidy', attempts_eq.trans (r.attempts_access access), fun h n place => ?_⟩
    obtain ⟨n', place', follows⟩ := tidy.follows_access access h n place
    obtain ⟨n'', place'', follows'⟩ := carries h n' place'
    exact ⟨n'', place'', follows.trans follows'⟩

/-- A handle of a registered negotiation: it is found under its own parties and id, and nowhere else. -/
structure Live (r : Register) (h : Handle) (n : Negotiation) : Prop where
  found : r.find? n.key = some (h, n)
  once : ∀ key m, r.find? key = some (h, m) → key = n.key
  live : n.retired = false

/-- A handle of a discarded negotiation: nothing was committed through it, and nothing will be. -/
structure Gone (r : Register) (h : Handle) (n : Negotiation) : Prop where
  unlisted : ∀ key m, r.find? key ≠ some (h, m)
  retired : n.retired = true
  initial : n.status = .initial
  offers : n.offers = []
  fixed : ∀ later, (r.serve later).get? h = some n

theorem Tidy.live (tidy : r.Tidy) (found : r.find? key = some (h, n)) : r.Live h n := by
  obtain ⟨place, rfl, live⟩ := tidy.find?_iff.1 found
  refine ⟨found, fun key m found' => ?_, live⟩
  obtain ⟨place', rfl, -⟩ := tidy.find?_iff.1 found'
  rw [Option.some.inj (place'.symm.trans place)]

theorem Tidy.live_or_gone (tidy : r.Tidy) (place : r.get? h = some n) : r.Live h n ∨ r.Gone h n := by
  cases live : n.retired with
  | false => exact .inl (tidy.live (tidy.find?_iff.2 ⟨place, rfl, live⟩))
  | true =>
    have mem := List.mem_of_getElem? place
    have initial := tidy.gone n mem live
    refine .inr ⟨fun key m found => ?_, live, initial, (tidy.blank n mem initial).offers, ?_⟩
    · obtain ⟨place', -, live'⟩ := tidy.find?_iff.1 found
      rw [Option.some.inj (place'.symm.trans place), live] at live'
      cases live'
    · intro later
      obtain ⟨n', place', follows⟩ := (tidy.leads_serve later).carries h n place
      rw [place', follows.gone live]

theorem Leads.live (leads : r.Leads r') (live : r.Live h n) (opened : n.status ≠ .initial) :
    ∃ n', r'.Live h n' ∧ n.Follows n' := by
  obtain ⟨n', place, follows⟩ := leads.carries h n (find?_eq_some_iff.1 live.found).2
  have live' : n'.retired = false := (follows.opened opened).2.trans live.live
  exact ⟨n', leads.tidy.live (leads.tidy.find?_iff.2 ⟨place, rfl, live'⟩), follows⟩

theorem find?_getOrCreate (r : Register) (a b : Party) (id : NegotiationId) :
    (r.getOrCreate a b id).2.find? (.of a.name b.name, id) = some (r.getOrCreate a b id).1 := by
  unfold getOrCreate
  split
  next known => exact known
  next missing => exact find?_insert r id a b

theorem getOrCreate_of_missing (missing : r.find? (.of a.name b.name, id) = none) :
    r.getOrCreate a b id = r.insert id a b := by
  simp only [getOrCreate, missing]

theorem getOrCreate_of_find? {entry : Handle × Negotiation}
    (found : r.find? (.of a.name b.name, id) = some entry) : r.getOrCreate a b id = (entry, r) := by
  simp only [getOrCreate, found]

theorem Tidy.kept_insert (tidy : r.Tidy) (missing : r.registered? (Negotiation.start id a b).key = none)
    {entry : Handle × Negotiation} (found : r.find? key = some entry) :
    (r.insert id a b).2.find? key = some entry := by
  obtain ⟨h, n⟩ := entry
  obtain ⟨place, key_eq, live⟩ := tidy.find?_iff.1 found
  exact (tidy.insert missing).find?_iff.2 ⟨get?_insert_of_some place, key_eq, live⟩

/-- How opening a negotiation ends: under the first id drawn that the pair does not use, with all
other negotiations as they were; or not, if that many are in use, with the register as it was. -/
inductive Creates (r : Register) (draws : Nat) (a b : Party) :
    Except Error (Handle × Negotiation) × Register → Prop
  | opened (k : Nat) (h : Handle) (r' : Register) (within : k < draws)
    (used : ∀ j < k, r.Uses a b (r.source (r.drawn + j)))
    (unused : ¬ r.Uses a b (r.source (r.drawn + k)))
    (live : r'.Live h (.start (r.source (r.drawn + k)) a b))
    (drawn : r'.drawn = r.drawn + k + 1)
    (kept : ∀ key entry, r.find? key = some entry → r'.find? key = some entry) :
    Creates r draws a b (.ok (h, .start (r.source (r.drawn + k)) a b), r')
  | exhausted (used : ∀ j < draws, r.Uses a b (r.source (r.drawn + j))) :
    Creates r draws a b
      (.error (.idGenerationExhausted draws), { r with drawn := r.drawn + draws })

theorem Tidy.creates (tidy : r.Tidy) (a b : Party) : r.Creates r.attempts a b (r.create a b) := by
  obtain ⟨k, within, used, unused, drew⟩ | ⟨used, drew⟩ := r.drawId_cases a b r.attempts r.drawn
  · rw [create_of_drawId drew]
    have missing := not_uses_iff.1 unused
    have tidy' := (tidy.withDrawn (r.drawn + k + 1)).insert missing
    refine .opened k _ _ within used unused (tidy'.live (find?_insert _ _ a b)) rfl ?_
    exact fun key entry found => (tidy.withDrawn _).kept_insert missing found
  · rw [create_of_exhausted drew]
    exact .exhausted used

def Lands (r : Register) (h : Handle) (n n' : Negotiation) : Prop :=
  ∀ later, ∃ n'', n'.Follows n'' ∧
    ((r.put h n').serve later).getBy n.first.name n.second.name n.id = .ok (h, n'')

theorem Tidy.lands {deed : Negotiation.Deed} {m : Message} (tidy : r.Tidy) (place : r.get? h = some n)
    (live : n.retired = false) (added : n.after deed = n.apply m a) : r.Lands h n (n.apply m a) := by
  intro later
  have tidy' := tidy.update h deed
  have changed : r.update h deed = r.put h (n.apply m a) := by rw [Register.update, place, ← added]
  rw [changed] at tidy'
  have place' : (r.put h (n.apply m a)).get? h = some (n.apply m a) := by
    rw [get?_put place, if_pos rfl]
  have live' : (r.put h (n.apply m a)).Live h (n.apply m a) :=
    tidy'.live (tidy'.find?_iff.2 ⟨place', rfl, Negotiation.retired_apply.trans live⟩)
  obtain ⟨n', found, follows⟩ := (tidy'.leads_serve later).live live' Negotiation.status_apply_ne
  have found := found.found
  rw [follows.key_eq, Negotiation.key_apply] at found
  exact ⟨n', follows, getBy_of_find? found⟩

/-- That no handle of a register and nothing committed at one is lost. -/
structure Faithful (r : Register) (draws : Nat) : Prop where
  handles : ∀ h n, r.get? h = some n → r.Live h n ∨ r.Gone h n
  kept : ∀ h n, r.get? h = some n →
    ∀ later, ∃ n', (r.serve later).get? h = some n' ∧ n.Follows n'
  getBy : ∀ a b id h n, r.getBy a b id = .ok (h, n) →
    r.Live h n ∧ n.key = (.of a b, id) ∧ r.getBy b a id = .ok (h, n)
  getOrCreate : ∀ a b id h n r', r.getOrCreate a b id = ((h, n), r') →
    r'.Live h n ∧ n.key = (.of a.name b.name, id) ∧ r'.getOrCreate b a id = ((h, n), r')
  create : ∀ a b, r.Creates draws a b (r.create a b)
  size : r.size = (r.negotiations.filter fun n => !n.retired).length
  commit : ∀ h n d m n', r.get? h = some n → n.commit d = (.ok m, n') → r.Lands h n n'
  receive : ∀ h n ctx m n', r.get? h = some n → n.receive ctx m = (.ok (), n') → r.Lands h n n'

/-- Whatever is done with a register and the handles it gave, none is lost. -/
theorem serve_faithful (attempts : Nat) (source : Nat → NegotiationId) (accesses : List Access) :
    ((empty attempts source).serve accesses).Faithful (max 1 attempts) := by
  have leads := (tidy_empty attempts source).leads_serve accesses
  generalize (empty attempts source).serve accesses = r at leads
  have tidy := leads.tidy
  have draws : r.attempts = max 1 attempts := leads.attempts_eq
  constructor
  case handles => exact fun h n place => tidy.live_or_gone place
  case kept => exact fun h n place later => (tidy.leads_serve later).carries h n place
  case getBy =>
    intro a b id h n got
    have found := getBy_eq_ok got
    exact ⟨tidy.live found, (tidy.find?_iff.1 found).2.1, getBy_comm got⟩
  case getOrCreate =>
    intro a b id h n r' got
    have tidy' := tidy.getOrCreate a b id
    have found := r.find?_getOrCreate a b id
    rw [got] at tidy' found
    have swapped : r'.find? (.of b.name a.name, id) = some (h, n) := by
      rw [PartyPair.of_comm]
      exact found
    exact ⟨tidy'.live found, (tidy'.find?_iff.1 found).2.1, getOrCreate_of_find? swapped⟩
  case create =>
    rw [← draws]
    exact tidy.creates
  case size =>
    rw [tidy.size_eq, List.countP_eq_length_filter]
  case commit =>
    intro h n d m n' place committed
    obtain ⟨fits, -, rfl⟩ := Negotiation.commit_eq_ok_iff.1 committed
    have added : n.after (.commit d) = _ := congrArg Prod.snd committed
    exact tidy.lands place (Negotiation.fits_iff.1 fits).1 added
  case receive =>
    intro h n ctx m n' place received
    obtain ⟨b, live, -, rfl⟩ := Negotiation.receive_eq_ok received
    have added : n.after (.receive ctx m) = _ := congrArg Prod.snd received
    exact tidy.lands place live added

end Parley.Register
