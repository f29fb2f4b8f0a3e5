import Mathlib.Data.List.Nodup
import Parley.Proofs.Config
import Parley.Proofs.Negotiation.Mirror

namespace Parley

namespace Directory

variable {α : Type} [Listed α] {entries : List α}

/-- Entries of which two, at different places, share a name or a digest. -/
def Clashing (entries : List α) : Prop :=
  ∃ (i j : Nat) (e f : α), i ≠ j ∧ entries[i]? = some e ∧ entries[j]? = some f ∧
    (Listed.name e = Listed.name f ∨ ∃ h, h ∈ Listed.hashes e ∧ h ∈ Listed.hashes f)

theorem not_apart_iff {e f : α} : ¬ Apart e f ↔
    Listed.name e = Listed.name f ∨ ∃ h, h ∈ Listed.hashes e ∧ h ∈ Listed.hashes f := by
  simp only [Apart, not_and_or, not_not, not_forall, exists_prop]

theorem not_clashing_iff : ¬ Clashing entries ↔ entries.Pairwise Apart := by
  have elsewhere : Clashing entries ↔ ∃ i j, ∃ (hi : i < entries.length)
      (hj : j < entries.length), i ≠ j ∧ ¬ Apart entries[i] entries[j] := by
    simp only [Clashing, ← not_apart_iff, List.getElem?_eq_some_iff]
    constructor
    · rintro ⟨i, j, e, f, ne, ⟨hi, rfl⟩, ⟨hj, rfl⟩, meet⟩
      exact ⟨i, j, hi, hj, ne, meet⟩
    · rintro ⟨i, j, hi, hj, ne, meet⟩
      exact ⟨i, j, _, _, ne, ⟨hi, rfl⟩, ⟨hj, rfl⟩, meet⟩
  rw [elsewhere, List.pairwise_iff_getElem]
  constructor
  · intro none i j hi hj lt
    by_contra meet
    exact none ⟨i, j, hi, hj, Nat.ne_of_lt lt, meet⟩
  · rintro apart ⟨i, j, hi, hj, ne, meet⟩
    -- which of the two comes first is no matter, since being apart is symmetric
    rcases Nat.lt_or_gt_of_ne ne with lt | gt
    · exact meet (apart i j hi hj lt)
    · exact meet (symm (apart j i hj hi gt))

theorem ofList_cases (once : ∀ e ∈ entries, (Listed.hashes e).Nodup) :
    (¬ Clashing entries ∧ ofList entries = .ok ⟨entries⟩) ∨
      (Clashing entries ∧ ∃ clash, ofList entries = .error clash) := by
  by_cases clashing : Clashing entries
  · refine .inr ⟨clashing, ?_⟩
    cases made : ofList entries with
    | error clash => exact ⟨clash, rfl⟩
    | ok d =>
      obtain ⟨rfl, wf⟩ := ofList_eq_ok made
      exact absurd clashing (not_clashing_iff.2 wf)
  · exact .inl ⟨clashing, ofList_of_apart (not_clashing_iff.1 clashing) once⟩

theorem exact_of_cases {β : Type} {clashing : Prop} {made : Except Error β} {answers : β → Prop}
    (cases : (¬ clashing ∧ ∃ d, made = .ok d ∧ answers d) ∨
      (clashing ∧ ∃ reason, made = .error (.ambiguous reason))) :
    ((∃ reason, made = .error (.ambiguous reason)) ↔ clashing) ∧
      (¬ clashing → ∃ d, made = .ok d ∧ answers d) := by
  rcases cases with ⟨clear, d, rfl, answers⟩ | ⟨clash, refused⟩
  · exact ⟨⟨nofun, fun clash => absurd clash clear⟩, fun _ => ⟨d, rfl, answers⟩⟩
  · exact ⟨⟨fun _ => clash, fun _ => refused⟩, fun clear => absurd clash clear⟩

end Directory

def Refused {α : Type} (kind : BadRequest) (r : Except Error α) : Prop :=
  ∃ reason, r = .error (.badRequest kind reason)

namespace Parties

variable {ps : Parties} {parties : List Party} {s : Settings} {role : Role} {name : String}
  {h : Digest}

theorem byName_cases (ps : Parties) (role : Role) (name : String) :
    (∃ p, ps.byName role name = .ok p) ∨ Refused .unknownParty (ps.byName role name) := by
  unfold byName
  split
  · exact .inl ⟨_, rfl⟩
  · exact .inr ⟨_, rfl⟩

theorem byFingerprint_cases (role : Role) (accepted : h.algorithm ∈ ps.accepted) :
    (∃ p, ps.byFingerprint role h = .ok p) ∨ Refused .unknownParty (ps.byFingerprint role h) := by
  unfold byFingerprint
  rw [if_neg (by simpa using accepted)]
  split
  · exact .inr ⟨_, rfl⟩
  · split
    · exact .inl ⟨_, rfl⟩
    · exact .inr ⟨_, rfl⟩

theorem byFingerprint_unaccepted (unaccepted : h.algorithm ∉ ps.accepted) :
    Refused .unsupportedHashAlgorithm (ps.byFingerprint role h) := by
  unfold byFingerprint
  rw [if_pos (by simpa using unaccepted)]
  exact ⟨_, rfl⟩

/-- That the look-ups by one key find a party: as any party, and as owned or as counter-party,
whichever it is and not as the other. -/
structure Finds (lookup : Role → Except Error Party) (p : Party) : Prop where
  any : lookup .any = .ok p
  owned : p.isOwned = true → lookup .owned = .ok p ∧ Refused .unknownParty (lookup .counter)
  counter : p.isOwned = false → lookup .counter = .ok p ∧ Refused .unknownParty (lookup .owned)

theorem finds_of_iff {lookup : Role → Except Error Party} {p : Party}
    (found : ∀ role q, lookup role = .ok q ↔ q = p ∧ role.admits q = true)
    (decided : ∀ role, (∃ q, lookup role = .ok q) ∨ Refused .unknownParty (lookup role)) :
    Finds lookup p := by
  have misses : ∀ role : Role, role.admits p = false → Refused .unknownParty (lookup role) := by
    intro role other
    refine (decided role).resolve_left fun ⟨q, is⟩ => ?_
    obtain ⟨rfl, admitted⟩ := (found role q).1 is
    exact Bool.false_ne_true (other.symm.trans admitted)
  refine ⟨(found .any p).2 ⟨rfl, rfl⟩, fun owned => ?_, fun counter => ?_⟩
  · exact ⟨(found .owned p).2 ⟨rfl, owned⟩, misses .counter (by simp [Role.admits, owned])⟩
  · exact ⟨(found .counter p).2 ⟨rfl, by simp [Role.admits, counter]⟩, misses .owned counter⟩

/-- What a directory of parties answers: each party to its name and its fingerprints, nothing to
another name or fingerprint, and nothing to any fingerprint under an algorithm that is not accepted.
-/
structure Answers (ps : Parties) (parties : List Party) (s : Settings) : Prop where
  name : ∀ p ∈ parties, Finds (fun role => ps.byName role p.name) p
  fingerprint : ∀ p ∈ parties, ∀ h ∈ p.fingerprints, Finds (fun role => ps.byFingerprint role h) p
  otherName : ∀ name, (∀ p ∈ parties, p.name ≠ name) →
    ∀ role, Refused .unknownParty (ps.byName role name)
  otherFingerprint : ∀ h : Digest, h.algorithm ∈ s.accepted → (∀ p ∈ parties, h ∉ p.fingerprints) →
    ∀ role, Refused .unknownParty (ps.byFingerprint role h)
  unaccepted : ∀ h : Digest, h.algorithm ∉ s.accepted →
    ∀ role, Refused .unsupportedHashAlgorithm (ps.byFingerprint role h)

theorem answers_of_built (built : ∀ p ∈ parties, p.Built s) (made : ofList parties s = .ok ps) :
    ps.Answers parties s := by
  obtain ⟨entries_eq, accepted_eq, wf⟩ := ofList_eq_ok made
  have byName : ∀ {role q name}, ps.byName role name = .ok q ↔
      q ∈ parties ∧ q.name = name ∧ role.admits q = true := by
    rw [← entries_eq]
    exact byName_eq_ok_iff wf
  have byFingerprint : ∀ {role q h}, ps.byFingerprint role h = .ok q ↔
      h.algorithm ∈ s.accepted ∧ q ∈ parties ∧ h ∈ q.fingerprints ∧ role.admits q = true := by
    rw [← entries_eq, ← accepted_eq]
    exact byFingerprint_eq_ok_iff wf
  rw [← entries_eq] at built
  constructor
  case name =>
    intro p mem
    refine finds_of_iff (fun role q => byName.trans ?_) fun role => ps.byName_cases role p.name
    constructor
    · rintro ⟨mem', same, admitted⟩
      exact ⟨wf.eq_of_name (entries_eq ▸ mem') (entries_eq ▸ mem) same, admitted⟩
    · rintro ⟨rfl, admitted⟩
      exact ⟨mem, rfl, admitted⟩
  case fingerprint =>
    intro p mem h own
    have accepted := (built p (entries_eq ▸ mem)).algorithm_mem own
    refine finds_of_iff (fun role q => byFingerprint.trans ?_) fun role =>
      byFingerprint_cases role (accepted_eq ▸ accepted)
    constructor
    · rintro ⟨-, mem', own', admitted⟩
      exact ⟨wf.eq_of_hash (entries_eq ▸ mem') (entries_eq ▸ mem) own' own, admitted⟩
    · rintro ⟨rfl, admitted⟩
      exact ⟨accepted, mem, own, admitted⟩
  case otherName =>
    intro name other role
    refine (ps.byName_cases role name).resolve_left fun ⟨q, found⟩ => ?_
    obtain ⟨mem, same, -⟩ := byName.1 found
    exact other q mem same
  case otherFingerprint =>
    intro h accepted other role
    refine (byFingerprint_cases role (accepted_eq ▸ accepted)).resolve_left fun ⟨q, found⟩ => ?_
    obtain ⟨-, mem, own, -⟩ := byFingerprint.1 found
    exact other q mem own
  case unaccepted =>
    intro h unaccepted role
    exact byFingerprint_unaccepted (accepted_eq ▸ unaccepted)

theorem ofList_cases (once : s.accepted.Nodup) (built : ∀ p ∈ parties, p.Built s) :
    (¬ Directory.Clashing parties ∧ ∃ ps, ofList parties s = .ok ps ∧ ps.Answers parties s) ∨
      (Directory.Clashing parties ∧ ∃ reason, ofList parties s = .error (.ambiguous reason)) := by
  have distinct : ∀ p ∈ parties, p.fingerprints.Nodup := by
    intro p mem
    rw [(built p mem).fingerprints_eq]
    exact once.map fun a b same => congrArg Digest.algorithm same
  rcases Directory.ofList_cases distinct with ⟨clear, listed⟩ | ⟨clashing, clash, listed⟩
  · have made : ofList parties s = .ok ⟨⟨parties⟩, s.accepted⟩ := by
      unfold ofList
      rw [listed]
    exact .inl ⟨clear, _, made, answers_of_built built made⟩
  · refine .inr ⟨clashing, ?_⟩
    unfold ofList
    rw [listed]
    cases clash <;> exact ⟨_, rfl⟩

end Parties

namespace Templates

variable {ts : Templates} {templates : List Template} {s : Settings} {name : String} {h : Digest}

theorem byName_cases (ts : Templates) (name : String) :
    (∃ t, ts.byName name = .ok t) ∨ Refused .unknownTemplate (ts.byName name) := by
  unfold byName
  split
  · exact .inl ⟨_, rfl⟩
  · exact .inr ⟨_, rfl⟩

theorem byHash_cases (ts : Templates) (h : Digest) :
    (∃ t, ts.byHash h = .ok t) ∨ Refused .unknownTemplate (ts.byHash h) := by
  unfold byHash
  split
  · exact .inl ⟨_, rfl⟩
  · exact .inr ⟨_, rfl⟩

/-- What a directory of templates answers: each template to its name and its digests, and nothing
to another name or digest. -/
structure Answers (ts : Templates) (templates : List Template) : Prop where
  name : ∀ t ∈ templates, ts.byName t.name = .ok t
  hash : ∀ t ∈ templates, ∀ h ∈ t.hashes, ts.byHash h = .ok t
  otherName : ∀ name, (∀ t ∈ templates, t.name ≠ name) → Refused .unknownTemplate (ts.byName name)
  otherHash : ∀ h, (∀ t ∈ templates, h ∉ t.hashes) → Refused .unknownTemplate (ts.byHash h)

theorem answers_of_made (made : ofList templates = .ok ts) : ts.Answers templates := by
  obtain ⟨rfl, wf⟩ := ofList_eq_ok made
  constructor
  case name => exact fun t mem => (byName_eq_ok_iff wf).2 ⟨mem, rfl⟩
  case hash => exact fun t mem h own => byHash_of_mem wf mem own
  case otherName =>
    intro name other
    refine (ts.byName_cases name).resolve_left fun ⟨t, found⟩ => ?_
    obtain ⟨mem, same⟩ := (byName_eq_ok_iff wf).1 found
    exact other t mem same
  case otherHash =>
    intro h other
    refine (ts.byHash_cases h).resolve_left fun ⟨t, found⟩ => ?_
    obtain ⟨mem, own⟩ := byHash_eq_ok found
    exact other t mem own

theorem ofList_cases (once : s.accepted.Nodup) (built : ∀ t ∈ templates, t.Built s) :
    (¬ Directory.Clashing templates ∧ ∃ ts, ofList templates = .ok ts ∧ ts.Answers templates) ∨
      (Directory.Clashing templates ∧ ∃ reason, ofList templates = .error (.ambiguous reason)) := by
  have distinct : ∀ t ∈ templates, t.hashes.Nodup := by
    intro t mem
    rw [(built t mem).hashes_eq]
    exact once.map fun a b same => congrArg Digest.algorithm same
  rcases Directory.ofList_cases distinct with ⟨clear, listed⟩ | ⟨clashing, clash, listed⟩
  · have made : ofList templates = .ok ⟨⟨templates⟩⟩ := by
      unfold ofList
      rw [listed]
    exact .inl ⟨clear, _, made, answers_of_made made⟩
  · refine .inr ⟨clashing, ?_⟩
    unfold ofList
    rw [listed]
    cases clash <;> exact ⟨_, rfl⟩

end Templates

/-- Under settings that are loaded, entries make a directory exactly if no two of them share a name
or a digest, and it answers for these entries and no others. -/
theorem Config.directories_exact {c : Config} {s : Settings} (loaded : c.settings = .ok s) :
    (∀ parties : List Party, (∀ p ∈ parties, p.Built s) →
      ((∃ reason, Parties.ofList parties s = .error (.ambiguous reason)) ↔
        Directory.Clashing parties) ∧
      (¬ Directory.Clashing parties →
        ∃ ps, Parties.ofList parties s = .ok ps ∧ ps.Answers parties s)) ∧
    (∀ templates : List Template, (∀ t ∈ templates, t.Built s) →
      ((∃ reason, Templates.ofList templates = .error (.ambiguous reason)) ↔
        Directory.Clashing templates) ∧
      (¬ Directory.Clashing templates →
        ∃ ts, Templates.ofList templates = .ok ts ∧ ts.Answers templates)) := by
  have once := settings_nodup loaded
  exact ⟨fun parties built => Directory.exact_of_cases (Parties.ofList_cases once built),
    fun templates built => Directory.exact_of_cases (Templates.ofList_cases once built)⟩

namespace Sample

theorem config_directories :
    (config 0).settings = .ok settings ∧
    (∃ ps, Parties.ofList [owned "Buyer" buyerSeed, counter "Seller" sellerSeed] settings = .ok ps ∧
      ps.Answers [owned "Buyer" buyerSeed, counter "Seller" sellerSeed] settings) ∧
    (∃ reason, Parties.ofList [owned "Buyer" buyerSeed, counter " Buyer" sellerSeed] settings =
      .error (.ambiguous reason)) ∧
    ∃ ts, Templates.ofList [template] = .ok ts ∧ ts.Answers [template] := by
  have loaded : (config 0).settings = .ok settings := config_settings (by decide) (by decide)
  obtain ⟨ofParties, ofTemplates⟩ := Config.directories_exact loaded
  have built {name : String} (named : (Text.trim name).isEmpty = false) :
      ∀ p ∈ [owned "Buyer" buyerSeed, counter name sellerSeed], p.Built settings :=
    List.forall_mem_cons.2 ⟨built_owned buyerSeed (by decide),
      List.forall_mem_singleton.2 (built_counter sellerSeed named)⟩
  refine ⟨loaded, ?_, ?_, ?_⟩
  · exact (ofParties _ (built (by decide))).2
      (Directory.not_clashing_iff.2 (List.pairwise_pair.2 (apart _ _)))
  · refine (ofParties _ (built (by decide))).1.2 ⟨0, 1, _, _, by decide, rfl, rfl, .inl ?_⟩
    change Text.trim "Buyer" = Text.trim " Buyer"
    decide
  · refine (ofTemplates _ ?_).2 (Directory.not_clashing_iff.2 (List.pairwise_singleton _ _))
    exact List.forall_mem_singleton.2 template_built

end Sample

end Parley
