import Mathlib.Data.List.Pairwise
import Parley.Party.Directory
import Parley.Proofs.Steps

namespace Parley

theorem find?_eq_some_iff_of_unique {α : Type} {l : List α} {p : α → Bool} {a : α}
    (unique : ∀ b ∈ l, ∀ c ∈ l, p b → p c → b = c) : l.find? p = some a ↔ a ∈ l ∧ p a := by
  constructor
  · intro h
    exact ⟨List.mem_of_find?_eq_some h, List.find?_some h⟩
  · rintro ⟨mem, holds⟩
    cases h : l.find? p with
    | none => exact absurd holds (List.find?_eq_none.1 h a mem)
    | some b => rw [unique b (List.mem_of_find?_eq_some h) a mem (List.find?_some h) holds]

namespace Directory

variable {α : Type} [Listed α] {d d' : Directory α} {e f : α} {h : Digest} {name : String}

/-- That two entries cannot be mistaken for one another. -/
def Apart (e f : α) : Prop :=
  Listed.name e ≠ Listed.name f ∧ ∀ h ∈ Listed.hashes e, h ∉ Listed.hashes f

instance : Std.Symm (Apart (α := α)) :=
  ⟨fun _ _ h => ⟨h.1.symm, fun k hf he => h.2 k he hf⟩⟩

def WellFormed (d : Directory α) : Prop :=
  d.entries.Pairwise Apart

theorem WellFormed.eq_of_not_apart (wf : d.WellFormed) (he : e ∈ d.entries) (hf : f ∈ d.entries)
    (meet : ¬ Apart e f) : e = f := by
  by_contra ne
  exact meet (List.Pairwise.forall wf he hf ne)

theorem WellFormed.eq_of_name (wf : d.WellFormed) (he : e ∈ d.entries) (hf : f ∈ d.entries)
    (same : Listed.name e = Listed.name f) : e = f :=
  wf.eq_of_not_apart he hf fun apart => apart.1 same

theorem WellFormed.eq_of_hash (wf : d.WellFormed) (he : e ∈ d.entries) (hf : f ∈ d.entries)
    (hhe : h ∈ Listed.hashes e) (hhf : h ∈ Listed.hashes f) : e = f :=
  wf.eq_of_not_apart he hf fun apart => apart.2 h hhe hhf

theorem byName?_eq_some_iff (wf : d.WellFormed) :
    d.byName? name = some e ↔ e ∈ d.entries ∧ Listed.name e = name := by
  unfold byName?
  rw [find?_eq_some_iff_of_unique, beq_iff_eq]
  intro b hb c hc hbn hcn
  rw [beq_iff_eq] at hbn hcn
  exact wf.eq_of_name hb hc (hbn.trans hcn.symm)

theorem byHash?_eq_some_iff (wf : d.WellFormed) :
    d.byHash? h = some e ↔ e ∈ d.entries ∧ h ∈ Listed.hashes e := by
  unfold byHash?
  rw [find?_eq_some_iff_of_unique, List.contains_iff_mem]
  intro b hb c hc hbh hch
  exact wf.eq_of_hash hb hc (List.contains_iff_mem.1 hbh) (List.contains_iff_mem.1 hch)

theorem hashClash?_eq_none {seen hashes : List Digest} (clash : d.hashClash? e seen hashes = none)
    (mem : h ∈ hashes) : d.byHash? h = none := by
  induction hashes generalizing seen with
  | nil => cases mem
  | cons k rest ih =>
    unfold hashClash? at clash
    cases hk : d.byHash? k with
    | some earlier => simp [hk] at clash
    | none =>
      rw [hk] at clash
      dsimp only at clash
      split at clash
      · cases clash
      · rcases List.mem_cons.1 mem with rfl | mem
        · exact hk
        · exact ih clash mem

theorem add_eq_ok (added : d.add e = .ok d') :
    d'.entries = d.entries ++ [e] ∧ ∀ f ∈ d.entries, Apart f e := by
  unfold add at added
  split at added
  · cases added
  next free =>
    split at added
    · cases added
    next noClash =>
      cases added
      refine ⟨rfl, fun f hf => ⟨?_, ?_⟩⟩
      · intro same
        apply free
        simp only [byName?, List.find?_isSome]
        exact ⟨f, hf, by simp [same]⟩
      · intro k hkf hke
        have := hashClash?_eq_none noClash hke
        simp only [byHash?, List.find?_eq_none] at this
        exact this f hf (by simp [hkf])

theorem foldlM_add_eq_ok {entries : List α} (made : entries.foldlM add d = .ok d')
    (wf : d.WellFormed) : d'.entries = d.entries ++ entries ∧ d'.WellFormed := by
  induction entries generalizing d with
  | nil =>
    cases made
    exact ⟨(List.append_nil _).symm, wf⟩
  | cons e rest ih =>
    rw [List.foldlM_cons, bind_eq_ok_iff] at made
    obtain ⟨d₁, added, made⟩ := made
    obtain ⟨entries_eq, apart⟩ := add_eq_ok added
    have wf₁ : d₁.WellFormed := by
      unfold WellFormed
      rw [entries_eq, List.pairwise_append]
      refine ⟨wf, List.pairwise_singleton _ _, fun f hf g hg => ?_⟩
      rw [List.mem_singleton.1 hg]
      exact apart f hf
    obtain ⟨entries_eq', wf'⟩ := ih made wf₁
    exact ⟨by rw [entries_eq', entries_eq, List.append_assoc, List.singleton_append], wf'⟩

theorem ofList_eq_ok {entries : List α} (made : ofList entries = .ok d) :
    d.entries = entries ∧ d.WellFormed := by
  simpa [empty] using foldlM_add_eq_ok made List.Pairwise.nil

theorem hashClash?_of_free {seen hashes : List Digest} (free : ∀ h ∈ hashes, d.byHash? h = none)
    (once : hashes.Nodup) (unseen : ∀ h ∈ hashes, h ∉ seen) : d.hashClash? e seen hashes = none := by
  induction hashes generalizing seen with
  | nil => rfl
  | cons h rest ih =>
    obtain ⟨fresh, once⟩ := List.nodup_cons.1 once
    unfold hashClash?
    rw [free h List.mem_cons_self]
    dsimp only
    rw [if_neg (by simpa using unseen h List.mem_cons_self)]
    refine ih (fun k mem => free k (List.mem_cons_of_mem _ mem)) once fun k mem seen' => ?_
    obtain rfl | seen' := List.mem_cons.1 seen'
    · exact fresh mem
    · exact unseen k (List.mem_cons_of_mem _ mem) seen'

theorem add_of_apart (apart : ∀ f ∈ d.entries, Apart f e) (once : (Listed.hashes e).Nodup) :
    d.add e = .ok ⟨d.entries ++ [e]⟩ := by
  have noName : d.byName? (Listed.name e) = none := by
    unfold byName?
    rw [List.find?_eq_none]
    intro f mem
    simpa using (apart f mem).1
  have noHash : ∀ h ∈ Listed.hashes e, d.byHash? h = none := by
    intro h he
    unfold byHash?
    rw [List.find?_eq_none]
    intro f mem
    simpa using fun hf => (apart f mem).2 h hf he
  unfold add
  rw [noName, hashClash?_of_free noHash once fun h _ => List.not_mem_nil]
  rfl

theorem foldlM_add_of_apart {entries : List α} (apart : (d.entries ++ entries).Pairwise Apart)
    (once : ∀ e ∈ entries, (Listed.hashes e).Nodup) :
    entries.foldlM add d = .ok ⟨d.entries ++ entries⟩ := by
  induction entries generalizing d with
  | nil =>
    rw [List.append_nil]
    rfl
  | cons e rest ih =>
    have before : ∀ f ∈ d.entries, Apart f e := fun f mem =>
      (List.pairwise_append.1 apart).2.2 f mem e List.mem_cons_self
    rw [List.append_cons] at apart
    rw [List.foldlM_cons, add_of_apart before (once e List.mem_cons_self),
      List.append_cons d.entries e rest]
    exact ih (d := ⟨d.entries ++ [e]⟩) apart fun f mem => once f (List.mem_cons_of_mem _ mem)

theorem ofList_of_apart {entries : List α} (apart : entries.Pairwise Apart)
    (once : ∀ e ∈ entries, (Listed.hashes e).Nodup) : ofList entries = .ok ⟨entries⟩ :=
  foldlM_add_of_apart (d := empty) apart once

end Directory

namespace Parties

variable {ps : Parties} {s : Settings} {p : Party} {role : Role}

theorem ofList_eq_ok {parties : List Party} (made : ofList parties s = .ok ps) :
    ps.directory.entries = parties ∧ ps.accepted = s.accepted ∧ ps.directory.WellFormed := by
  unfold ofList at made
  split at made
  next directory h =>
    cases made
    obtain ⟨entries_eq, wf⟩ := Directory.ofList_eq_ok h
    exact ⟨entries_eq, rfl, wf⟩
  · cases made
  · cases made

theorem ofList_of_apart {parties : List Party} (apart : parties.Pairwise Directory.Apart)
    (once : ∀ p ∈ parties, p.fingerprints.Nodup) :
    ofList parties s = .ok ⟨⟨parties⟩, s.accepted⟩ := by
  unfold ofList
  rw [Directory.ofList_of_apart apart once]

theorem byName_eq_ok_iff (wf : ps.directory.WellFormed) {name : String} :
    ps.byName role name = .ok p ↔ p ∈ ps.directory.entries ∧ p.name = name ∧ role.admits p := by
  have lookup : ps.byName role name = .ok p ↔
      (ps.directory.byName? name).filter role.admits = some p := by
    unfold byName
    cases (ps.directory.byName? name).filter role.admits with
    | none => simp
    | some q => simp
  rw [lookup, Option.filter_eq_some_iff, Directory.byName?_eq_some_iff wf, and_assoc]
  rfl

theorem byFingerprint_eq_ok_iff (wf : ps.directory.WellFormed) {h : Digest} :
    ps.byFingerprint role h = .ok p ↔ h.algorithm ∈ ps.accepted ∧ p ∈ ps.directory.entries ∧
      h ∈ p.fingerprints ∧ role.admits p := by
  have lookup : ps.byFingerprint role h = .ok p ↔
      h.algorithm ∈ ps.accepted ∧ ps.directory.byHash? h = some p ∧ role.admits p := by
    unfold byFingerprint
    by_cases accepted : h.algorithm ∈ ps.accepted
    · cases ps.directory.byHash? h with
      | none => simp [accepted]
      | some q =>
        by_cases admitted : role.admits q = true
        · simp only [accepted, admitted, Bool.not_true, Bool.false_eq_true, if_false, if_true,
            Except.ok.injEq, Option.some.injEq, true_and, List.contains_eq_mem, decide_true]
          constructor
          · rintro rfl
            exact ⟨rfl, admitted⟩
          · exact And.left
        · simp only [accepted, admitted, List.contains_eq_mem, decide_true, Bool.not_true,
            Bool.false_eq_true, if_false, reduceCtorEq, false_iff, true_and, not_and,
            Option.some.injEq]
          rintro rfl
          exact admitted
    · simp [accepted]
  rw [lookup, Directory.byHash?_eq_some_iff wf, and_assoc]
  rfl

end Parties

end Parley
