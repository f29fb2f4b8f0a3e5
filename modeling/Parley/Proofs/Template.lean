import Parley.Proofs.Directory
import Parley.Template.Directory

namespace Parley

namespace Template

variable {s : Settings} {t : Template} {h : Digest} {name text : String}
  {accepted : List HashAlgorithm}

theorem define_eq_ok_iff : define name text accepted = .ok t ↔
    Text.allBlank name = false ∧ ∃ preferred, HashAlgorithm.preferred? accepted = some preferred ∧
      t = {
        name, text
        parameters := (Placeholder.scan text).foldl (fun names p => insertName p.name names) []
        hashes := Digest.ofAll accepted (Text.utf8 text)
        preferredHash := Digest.of preferred (Text.utf8 text) } := by
  unfold define
  cases Text.allBlank name with
  | true => simp
  | false =>
    cases HashAlgorithm.preferred? accepted with
    | none => simp
    | some preferred => simp [eq_comm]

theorem exists_define_eq_ok_iff : (∃ t, define name text accepted = .ok t) ↔
    Text.allBlank name = false ∧ accepted ≠ [] := by
  simp only [define_eq_ok_iff, exists_and_left, exists_comm, exists_eq, and_true,
    ← Option.ne_none_iff_exists', ne_eq, HashAlgorithm.preferred?_eq_none_iff]

def Built (s : Settings) (t : Template) : Prop :=
  ∃ name text, define name text s.accepted = .ok t

theorem Built.hashes_eq (built : t.Built s) :
    t.hashes = Digest.ofAll s.accepted (Text.utf8 t.text) := by
  obtain ⟨name, text, defined⟩ := built
  obtain ⟨-, preferred, -, rfl⟩ := define_eq_ok_iff.1 defined
  rfl

theorem Built.algorithm_mem (built : t.Built s) (mem : h ∈ t.hashes) :
    h.algorithm ∈ s.accepted := by
  rw [built.hashes_eq] at mem
  obtain ⟨a, accepted, rfl⟩ := List.mem_map.1 mem
  exact accepted

theorem Built.preferredHash_mem (built : t.Built s) : t.preferredHash ∈ t.hashes := by
  obtain ⟨name, text, defined⟩ := built
  obtain ⟨-, preferred, found, rfl⟩ := define_eq_ok_iff.1 defined
  exact List.mem_map_of_mem (HashAlgorithm.mem_of_preferred? found)

end Template

namespace Templates

variable {ts : Templates} {s : Settings} {c : Contract} {t : Template} {contracts : List Contract}

def Sound (ts : Templates) (s : Settings) : Prop :=
  ∀ t ∈ ts.directory.entries, t.Built s

theorem ofList_eq_ok {templates : List Template} (made : ofList templates = .ok ts) :
    ts.directory.entries = templates ∧ ts.directory.WellFormed := by
  unfold ofList at made
  split at made
  next directory listed =>
    cases made
    exact Directory.ofList_eq_ok listed
  · cases made
  · cases made

theorem sound_ofList {templates : List Template} (built : ∀ t ∈ templates, t.Built s)
    (made : ofList templates = .ok ts) : ts.Sound s := by
  obtain ⟨entries_eq, -⟩ := ofList_eq_ok made
  exact fun t mem => built t (entries_eq ▸ mem)

theorem byName_eq_ok_iff {name : String} (wf : ts.directory.WellFormed) :
    ts.byName name = .ok t ↔ t ∈ ts.directory.entries ∧ t.name = name := by
  have named : ts.directory.byName? name = some t ↔ t ∈ ts.directory.entries ∧ t.name = name :=
    Directory.byName?_eq_some_iff wf
  rw [← named, byName]
  cases ts.directory.byName? name <;> simp

theorem byHash_of_mem {h : Digest} (wf : ts.directory.WellFormed) (mem : t ∈ ts.directory.entries)
    (named : h ∈ t.hashes) : ts.byHash h = .ok t := by
  rw [byHash, (Directory.byHash?_eq_some_iff wf).2 ⟨mem, named⟩]

theorem byHash_eq_ok {h : Digest} (found : ts.byHash h = .ok t) :
    t ∈ ts.directory.entries ∧ h ∈ t.hashes := by
  unfold byHash at found
  split at found
  next t' found' =>
    cases found
    unfold Directory.byHash? at found'
    have named := List.find?_some found'
    exact ⟨List.mem_of_find?_eq_some found', List.contains_iff_mem.1 named⟩
  · cases found

theorem validate_eq_ok (fits : ts.validate c = .ok t) :
    ts.byHash c.templateHash = .ok t ∧ t.validate c.arguments = .ok () := by
  unfold validate at fits
  simp only [bind_eq_ok_iff] at fits
  obtain ⟨t', found, _, filled, same⟩ := fits
  cases same
  exact ⟨found, filled⟩

theorem Sound.algorithm_mem (sound : ts.Sound s) (fits : ts.validate c = .ok t) :
    c.templateHash.algorithm ∈ s.accepted := by
  obtain ⟨mem, named⟩ := byHash_eq_ok (validate_eq_ok fits).1
  exact (sound t mem).algorithm_mem named

theorem forM_validate_eq_ok_iff : contracts.forM (fun c => (ts.validate c).map fun _ => ()) = .ok () ↔
    ∀ c ∈ contracts, ∃ t, ts.validate c = .ok t := by
  rw [forM_eq_ok_iff]
  refine forall₂_congr fun c _ => ?_
  cases ts.validate c <;> simp [Except.map]

end Templates

end Parley
