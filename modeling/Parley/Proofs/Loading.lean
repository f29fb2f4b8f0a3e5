import Parley.Config.MemoryFiles
import Parley.Proofs.Lookup

namespace Parley

theorem Files.text_eq_ok_iff {files : Files} {path text : String} :
    files.text path = .ok text ↔ files path = .ok (Text.utf8 text) := by
  unfold Files.text
  rw [bind_eq_ok_iff]
  constructor
  · rintro ⟨bytes, found, read⟩
    split at read
    next spelt =>
      cases read
      rw [found, Text.ofUtf8?_eq_some_iff.1 spelt]
    · cases read
  · intro found
    refine ⟨_, found, ?_⟩
    rw [Text.ofUtf8?_eq_some_iff.2 rfl]

namespace TemplateConfig

variable {c : TemplateConfig} {files : Files} {s : Settings} {t : Template} {text text' : String}

inductive Worded (files : Files) : TemplateConfig → String → Prop
  | given (name text : String) : Worded files ⟨name, some text, none⟩ text
  | read (name : String) {path text : String} (found : files path = .ok (Text.utf8 text)) :
    Worded files ⟨name, none, some path⟩ text

theorem Worded.unique (worded : c.Worded files text) (worded' : c.Worded files text') :
    text = text' := by
  cases worded with
  | given =>
    cases worded'
    rfl
  | read _ found =>
    cases worded' with
    | read _ found' => exact Text.utf8_injective (Except.ok.inj (found.symm.trans found'))

theorem validate_eq_ok_iff : c.validate = .ok () ↔
    Text.allBlank c.name = false ∧ c.text.isSome ≠ c.path.isSome := by
  unfold validate
  split
  next blank => simp [blank]
  next named =>
    split
    next both => simp [both]
    next one => simp [named, one]

theorem source_cases (c : TemplateConfig) : (∃ name text, c = ⟨name, some text, none⟩) ∨
    (∃ name path, c = ⟨name, none, some path⟩) ∨ c.text.isSome = c.path.isSome := by
  obtain ⟨name, _ | text, _ | path⟩ := c
  · exact .inr (.inr rfl)
  · exact .inr (.inl ⟨name, path, rfl⟩)
  · exact .inl ⟨name, text, rfl⟩
  · exact .inr (.inr rfl)

theorem exists_worded_iff : (∃ text, c.Worded files text) ↔ c.text.isSome ≠ c.path.isSome ∧
    ∀ path, c.path = some path → ∃ text, files path = .ok (Text.utf8 text) := by
  constructor
  · rintro ⟨text, worded⟩
    cases worded with
    | given => exact ⟨nofun, nofun⟩
    | read _ found => exact ⟨nofun, fun _ same => Option.some.inj same ▸ ⟨text, found⟩⟩
  · rintro ⟨one, readable⟩
    obtain ⟨name, text, rfl⟩ | ⟨name, path, rfl⟩ | same := c.source_cases
    · exact ⟨text, .given name text⟩
    · obtain ⟨text, found⟩ := readable path rfl
      exact ⟨text, .read name found⟩
    · exact absurd same one

theorem load_of_same (same : c.text.isSome = c.path.isSome) :
    c.load files s = .error c.bothOrNeither := by
  obtain ⟨name, _ | text, _ | path⟩ := c
  · rfl
  · cases same
  · cases same
  · rfl

theorem load_eq_ok_iff : c.load files s = .ok t ↔
    ∃ text, c.Worded files text ∧ Template.define c.name text s.accepted = .ok t := by
  constructor
  · intro loaded
    obtain ⟨name, text, rfl⟩ | ⟨name, path, rfl⟩ | same := c.source_cases
    · exact ⟨text, .given name text, loaded⟩
    · cases found : files.text path with
      | error fault => simp [load, found] at loaded
      | ok text =>
        simp only [load, found] at loaded
        exact ⟨text, .read name (Files.text_eq_ok_iff.1 found), loaded⟩
    · rw [load_of_same same] at loaded
      cases loaded
  · rintro ⟨text, worded, defined⟩
    cases worded with
    | given => exact defined
    | read _ found =>
      simp only [load, Files.text_eq_ok_iff.2 found]
      exact defined

theorem load_eq_ok (loaded : c.load files s = .ok t) :
    t.name = c.name ∧ c.Worded files t.text ∧ t.Built s := by
  obtain ⟨text, worded, defined⟩ := load_eq_ok_iff.1 loaded
  obtain ⟨-, preferred, -, rfl⟩ := Template.define_eq_ok_iff.1 defined
  exact ⟨rfl, worded, c.name, text, defined⟩

theorem exists_load_eq_ok_iff (some_accepted : s.accepted ≠ []) :
    (∃ t, c.load files s = .ok t) ↔ c.validate = .ok () ∧
      ∀ path, c.path = some path → ∃ text, files path = .ok (Text.utf8 text) := by
  have worded_iff : (∃ t, c.load files s = .ok t) ↔
      (∃ text, c.Worded files text) ∧ Text.allBlank c.name = false := by
    simp only [load_eq_ok_iff, exists_comm (α := Template), exists_and_left,
      Template.exists_define_eq_ok_iff, some_accepted, ne_eq, not_false_eq_true, and_true,
      exists_and_right]
  rw [worded_iff, exists_worded_iff, validate_eq_ok_iff, and_comm, ← and_assoc]

end TemplateConfig

theorem Template.apart_iff {s : Settings} {t u : Template} (some_accepted : s.accepted ≠ [])
    (t_built : t.Built s) (u_built : u.Built s)
    (apart : ∀ a ∈ s.accepted,
      Digest.of a (Text.utf8 t.text) = .of a (Text.utf8 u.text) → t.text = u.text) :
    Directory.Apart t u ↔ t.name ≠ u.name ∧ t.text ≠ u.text := by
  have t_hashes : Listed.hashes t = _ := t_built.hashes_eq
  have u_hashes : Listed.hashes u = _ := u_built.hashes_eq
  refine and_congr_right fun _ => ?_
  rw [t_hashes, u_hashes]
  constructor
  · intro disjoint same
    obtain ⟨a, accepted⟩ := List.exists_mem_of_ne_nil _ some_accepted
    exact disjoint _ (List.mem_map_of_mem accepted) (same ▸ List.mem_map_of_mem accepted)
  · intro differ h mem mem'
    obtain ⟨a, accepted, rfl⟩ := List.mem_map.1 mem
    obtain ⟨a', -, same⟩ := List.mem_map.1 mem'
    obtain rfl : a' = a := congrArg Digest.algorithm same
    exact differ (apart a' accepted same.symm)

namespace Config

variable {c : Config} {files : Files} {s : Settings} {ts : Templates} {templates : List Template}

theorem validate_eq_ok_iff : c.validate = .ok () ↔
    (∃ s, c.settings = .ok s) ∧ ∀ t ∈ c.templates, t.validate = .ok () := by
  unfold validate
  simp only [bind_eq_ok_iff, forM_eq_ok_iff, exists_and_right]

theorem loadTemplates_eq_ok_iff : c.loadTemplates files s = .ok ts ↔ ∃ templates,
    List.Forall₂ (fun t u => t.load files s = .ok u) c.templates templates ∧
      Templates.ofList templates = .ok ts := by
  unfold loadTemplates
  simp only [bind_eq_ok_iff, mapM_eq_ok_iff]

def TellsApart (c : Config) (files : Files) : Prop :=
  ∀ s, c.settings = .ok s → ∀ a ∈ s.accepted,
    ∀ t ∈ c.templates, ∀ u ∈ c.templates, ∀ text text',
      t.Worded files text → u.Worded files text' →
        Digest.of a (Text.utf8 text) = .of a (Text.utf8 text') → text = text'

/-- What a configuration must be for its templates to load, the files taken into account. -/
structure Loadable (c : Config) (files : Files) : Prop where
  valid : c.validate = .ok ()
  readable : ∀ t ∈ c.templates, ∀ path, t.path = some path →
    ∃ text, files path = .ok (Text.utf8 text)
  names : c.templates.Pairwise fun t u => t.name ≠ u.name
  texts : c.templates.Pairwise fun t u => ∀ text, t.Worded files text → ¬ u.Worded files text

theorem pairwise_apart_iff (loaded : c.settings = .ok s) (apart : c.TellsApart files)
    (pairs : List.Forall₂ (fun t u => t.load files s = .ok u) c.templates templates) :
    templates.Pairwise Directory.Apart ↔ (c.templates.Pairwise fun t u => t.name ≠ u.name) ∧
      c.templates.Pairwise fun t u => ∀ text, t.Worded files text → ¬ u.Worded files text := by
  have source : ∀ u ∈ templates, ∃ t ∈ c.templates, t.load files s = .ok u := fun u mem =>
    exists_of_forall₂ pairs.flip mem
  -- digests come into it only here: among loaded templates, a shared one means a shared text
  have differ : templates.Pairwise Directory.Apart ↔
      templates.Pairwise fun u v => u.name ≠ v.name ∧ u.text ≠ v.text := by
    refine List.Pairwise.iff_of_mem fun {u v} mem mem' => ?_
    obtain ⟨t, configured, made⟩ := source u mem
    obtain ⟨t', configured', made'⟩ := source v mem'
    obtain ⟨-, worded, built⟩ := TemplateConfig.load_eq_ok made
    obtain ⟨-, worded', built'⟩ := TemplateConfig.load_eq_ok made'
    exact Template.apart_iff (settings_eq_ok_iff.1 loaded).1.2 built built' fun a accepted =>
      apart s loaded a accepted t configured t' configured' _ _ worded worded'
  rw [differ, ← List.pairwise_and_iff]
  refine (pairwise_iff_of_forall₂ pairs fun {t u t' u'} made made' => ?_).symm
  obtain ⟨name_eq, worded, -⟩ := TemplateConfig.load_eq_ok made
  obtain ⟨name_eq', worded', -⟩ := TemplateConfig.load_eq_ok made'
  rw [name_eq, name_eq']
  refine and_congr_right fun _ => ⟨fun other same => ?_, fun other text wording wording' => ?_⟩
  · exact other _ worded (same ▸ worded')
  · exact other ((worded.unique wording).trans (wording'.unique worded'))

theorem exists_loadTemplates_eq_ok_iff (loaded : c.settings = .ok s)
    (apart : c.TellsApart files) :
    (∃ ts, c.loadTemplates files s = .ok ts) ↔ c.Loadable files := by
  have some_accepted := (settings_eq_ok_iff.1 loaded).1.2
  constructor
  · rintro ⟨ts, made⟩
    obtain ⟨templates, pairs, listed⟩ := loadTemplates_eq_ok_iff.1 made
    obtain ⟨rfl, wf⟩ := Templates.ofList_eq_ok listed
    obtain ⟨names, texts⟩ := (pairwise_apart_iff loaded apart pairs).1 wf
    have each : ∀ t ∈ c.templates, ∃ u, t.load files s = .ok u := fun t mem =>
      (exists_of_forall₂ pairs mem).imp fun _ made => made.2
    simp only [TemplateConfig.exists_load_eq_ok_iff some_accepted] at each
    exact ⟨validate_eq_ok_iff.2 ⟨⟨s, loaded⟩, fun t mem => (each t mem).1⟩,
      fun t mem => (each t mem).2, names, texts⟩
  · rintro ⟨valid, readable, names, texts⟩
    have each : ∀ t ∈ c.templates, ∃ u, t.load files s = .ok u := fun t mem =>
      (TemplateConfig.exists_load_eq_ok_iff some_accepted).2
        ⟨(validate_eq_ok_iff.1 valid).2 t mem, readable t mem⟩
    obtain ⟨templates, -, pairs⟩ := mapM_eq_ok each
    have clear := Directory.not_clashing_iff.2
      ((pairwise_apart_iff loaded apart pairs).2 ⟨names, texts⟩)
    have built : ∀ u ∈ templates, u.Built s := by
      intro u mem
      obtain ⟨t, -, made⟩ := exists_of_forall₂ pairs.flip mem
      exact (TemplateConfig.load_eq_ok made).2.2
    obtain ⟨-, ts, listed, -⟩ | ⟨clash, -⟩ := Templates.ofList_cases (settings_nodup loaded) built
    · exact ⟨ts, loadTemplates_eq_ok_iff.2 ⟨templates, pairs, listed⟩⟩
    · exact absurd clash clear

/-- Checking a configuration and loading it agree: settings come of it and its templates load exactly
if it passes the check, the files of its templates can be read, and no two templates have one name or
one text. What is loaded finds each template by its name and by every accepted digest of its text. -/
theorem loads_as_checked (apart : c.TellsApart files) :
    ((∃ s ts, c.settings = .ok s ∧ c.loadTemplates files s = .ok ts) ↔ c.Loadable files) ∧
    ∀ s ts, c.settings = .ok s → c.loadTemplates files s = .ok ts →
      ∀ t ∈ c.templates, ∃ u : Template, u.name = t.name ∧ t.Worded files u.text ∧
        ts.byName t.name = .ok u ∧ ∀ a ∈ s.accepted, ts.byHash (.of a (Text.utf8 u.text)) = .ok u := by
  refine ⟨⟨?_, ?_⟩, ?_⟩
  · rintro ⟨s, ts, loaded, made⟩
    exact (exists_loadTemplates_eq_ok_iff loaded apart).1 ⟨ts, made⟩
  · intro loadable
    obtain ⟨s, loaded⟩ := (validate_eq_ok_iff.1 loadable.valid).1
    obtain ⟨ts, made⟩ := (exists_loadTemplates_eq_ok_iff loaded apart).2 loadable
    exact ⟨s, ts, loaded, made⟩
  · intro s ts loaded made t configured
    obtain ⟨templates, pairs, listed⟩ := loadTemplates_eq_ok_iff.1 made
    obtain ⟨u, mem, made⟩ := exists_of_forall₂ pairs configured
    obtain ⟨name_eq, worded, built⟩ := TemplateConfig.load_eq_ok made
    have answers := Templates.answers_of_made listed
    refine ⟨u, name_eq, worded, name_eq ▸ answers.name u mem, fun a accepted => ?_⟩
    have own : Digest.of a (Text.utf8 u.text) ∈ u.hashes :=
      built.hashes_eq ▸ List.mem_map_of_mem accepted
    exact answers.hash u mem _ own

end Config

namespace Sample

def catalogue (text : String) : Config where
  security := ⟨["BLAKE3", "blake3"], some 30, none⟩
  negotiation := ⟨none⟩
  logging := .standard
  templates := [⟨"Goods", some text, none⟩, ⟨"Freight", none, some "freight.txt"⟩]

def shelf : Files := MemoryFiles.read ⟨[("freight.txt", Text.utf8 "freight")]⟩

theorem shelf_freight : shelf "freight.txt" = .ok (Text.utf8 "freight") := rfl

theorem catalogue_settings (text : String) :
    (catalogue text).settings = .ok ⟨[.blake3], .ofSeconds 30, .ofSeconds 86400, 32⟩ := rfl

theorem catalogue_valid (text : String) : (catalogue text).validate = .ok () := by
  have goods : Text.allBlank "Goods" = false := by decide
  have freight : Text.allBlank "Freight" = false := by decide
  refine Config.validate_eq_ok_iff.2 ⟨⟨_, catalogue_settings text⟩, List.forall_mem_cons.2 ⟨?_, ?_⟩⟩
  · exact TemplateConfig.validate_eq_ok_iff.2 ⟨goods, nofun⟩
  · exact List.forall_mem_singleton.2 (TemplateConfig.validate_eq_ok_iff.2 ⟨freight, nofun⟩)

theorem catalogue_goods (text : String) :
    TemplateConfig.Worded shelf ⟨"Goods", some text, none⟩ text :=
  .given "Goods" text

theorem catalogue_freight :
    TemplateConfig.Worded shelf ⟨"Freight", none, some "freight.txt"⟩ "freight" :=
  .read "Freight" shelf_freight

theorem catalogue_tellsApart {text : String}
    (apart : Digest.of .blake3 (Text.utf8 text) = .of .blake3 (Text.utf8 "freight") →
      text = "freight") : (catalogue text).TellsApart shelf := by
  have texts : ∀ t ∈ (catalogue text).templates, ∀ x, t.Worded shelf x → x = text ∨ x = "freight" := by
    intro t mem x worded
    obtain rfl | rfl := List.mem_pair.1 mem
    · exact .inl (worded.unique (catalogue_goods text))
    · exact .inr (worded.unique catalogue_freight)
  intro s loaded a accepted t configured u configured' x y worded worded' same
  cases loaded
  obtain rfl := List.mem_singleton.1 accepted
  obtain rfl | rfl := texts t configured x worded <;>
    obtain rfl | rfl := texts u configured' y worded'
  · rfl
  · exact apart same
  · exact (apart same.symm).symm
  · rfl

theorem goods_ne_freight : Digest.of .blake3 (Text.utf8 "goods") ≠
    .of .blake3 (Text.utf8 "freight") := by
  decide +kernel

theorem catalogue_loadable : (catalogue "goods").Loadable shelf where
  valid := catalogue_valid "goods"
  readable := by
    refine List.forall_mem_cons.2 ⟨nofun, List.forall_mem_singleton.2 ?_⟩
    rintro _ ⟨⟩
    exact ⟨"freight", shelf_freight⟩
  names := List.pairwise_pair.2 (by decide)
  texts := by
    refine List.pairwise_pair.2 fun text goods freight => absurd ?_ goods_ne_freight
    rw [← goods.unique (catalogue_goods "goods"), freight.unique catalogue_freight]

theorem catalogue_loads :
    (catalogue "goods").TellsApart shelf ∧ (catalogue "freight").TellsApart shelf ∧
    (∃ s ts, (catalogue "goods").settings = .ok s ∧
      (catalogue "goods").loadTemplates shelf s = .ok ts ∧
      ∃ u, ts.byName "Freight" = .ok u ∧ u.text = "freight" ∧
        ts.byHash (.of .blake3 (Text.utf8 "freight")) = .ok u) ∧
    (catalogue "freight").validate = .ok () ∧
    ¬ ∃ s ts, (catalogue "freight").settings = .ok s ∧
      (catalogue "freight").loadTemplates shelf s = .ok ts := by
  have goods := catalogue_tellsApart fun same => absurd same goods_ne_freight
  have freight : (catalogue "freight").TellsApart shelf := catalogue_tellsApart fun _ => rfl
  obtain ⟨loads, finds⟩ := Config.loads_as_checked goods
  refine ⟨goods, freight, ?_, catalogue_valid "freight", fun loaded => ?_⟩
  · obtain ⟨s, ts, loaded, made⟩ := loads.2 catalogue_loadable
    obtain ⟨u, -, worded, named, hashed⟩ := finds s ts loaded made
      ⟨"Freight", none, some "freight.txt"⟩ (List.mem_pair.2 (.inr rfl))
    have text_eq := worded.unique catalogue_freight
    refine ⟨s, ts, loaded, made, u, named, text_eq, text_eq ▸ hashed .blake3 ?_⟩
    cases loaded
    exact List.mem_singleton_self _
  · have texts := ((Config.loads_as_checked freight).1.1 loaded).texts
    exact List.pairwise_pair.1 texts "freight" (catalogue_goods "freight") catalogue_freight

end Sample

end Parley
