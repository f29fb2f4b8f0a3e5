import Mathlib.Data.List.Forall2
import Parley.Proofs.Arguments
import Parley.Proofs.Placeholder
import Parley.Proofs.Template

namespace Parley

inductive Misfit where
  | unknown (key : String)
  | missing (parameter : String)
  | blank (parameter : String)
  deriving DecidableEq

def Misfit.text : Misfit → String
  | .unknown k => s!"unknown argument '{k}'"
  | .missing p => s!"missing argument '{p}'"
  | .blank p => s!"argument '{p}' is blank"

theorem Misfit.text_unknown (k : String) : (unknown k).text = s!"unknown argument '{k}'" := rfl

theorem Misfit.text_missing (p : String) : (missing p).text = s!"missing argument '{p}'" := rfl

theorem Misfit.text_blank (p : String) : (blank p).text = s!"argument '{p}' is blank" := rfl

theorem head?_toList_append {s t : String} {c : Char} (first : s.toList.head? = some c) :
    (s ++ t).toList.head? = some c := by
  rw [String.toList_append, List.head?_append, first, Option.some_or]

theorem Misfit.head?_text (m : Misfit) : m.text.toList.head? =
    some (match m with | .unknown _ => 'u' | .missing _ => 'm' | .blank _ => 'a') := by
  cases m with
  | unknown k => exact head?_toList_append (head?_toList_append (c := 'u') (by decide))
  | missing p => exact head?_toList_append (head?_toList_append (c := 'm') (by decide))
  | blank p => exact head?_toList_append (head?_toList_append (c := 'a') (by decide))

theorem Misfit.text_injective : Function.Injective Misfit.text := by
  intro m m' same
  have initial := congrArg (·.toList.head?) same
  simp only [head?_text] at initial
  cases m <;> cases m'
  case unknown.unknown | missing.missing | blank.blank =>
    exact congrArg _ ((String.append_right_inj _).1 ((String.append_left_inj _).1 same))
  all_goals simp at initial

variable {names : List String} {n k : String}

theorem mem_insertName_iff : k ∈ insertName n names ↔ k = n ∨ k ∈ names := by
  induction names with
  | nil => simp [insertName]
  | cons m rest ih =>
    rw [insertName]
    split
    · simp
    · split
      next same => simp [same]
      next => simp [ih, or_left_comm]

theorem pairwise_insertName (sorted : names.Pairwise (· < ·)) :
    (insertName n names).Pairwise (· < ·) := by
  induction names with
  | nil => simp [insertName]
  | cons m rest ih =>
    obtain ⟨least, sorted'⟩ := List.pairwise_cons.1 sorted
    rw [insertName]
    split
    next lt =>
      refine List.pairwise_cons.2 ⟨fun k mem => ?_, sorted⟩
      obtain rfl | mem := List.mem_cons.1 mem
      · exact lt
      · exact String.lt_trans lt (least k mem)
    next ge =>
      split
      · exact sorted
      next ne =>
        refine List.pairwise_cons.2 ⟨fun k mem => ?_, ih sorted'⟩
        obtain rfl | mem := mem_insertName_iff.1 mem
        · exact Decidable.byContradiction fun le =>
            ne (String.le_antisymm (String.not_lt.1 le) (String.not_lt.1 ge))
        · exact least k mem

theorem foldl_insertName (ps : List Placeholder) (sorted : names.Pairwise (· < ·)) :
    (ps.foldl (fun names p => insertName p.name names) names).Pairwise (· < ·) ∧
      ∀ k, k ∈ ps.foldl (fun names p => insertName p.name names) names ↔
        (∃ p ∈ ps, p.name = k) ∨ k ∈ names := by
  induction ps generalizing names with
  | nil => simpa using sorted
  | cons p ps ih =>
    obtain ⟨sorted', mem_iff⟩ := ih (pairwise_insertName (n := p.name) sorted)
    refine ⟨sorted', fun k => ?_⟩
    rw [List.foldl_cons, mem_iff, mem_insertName_iff, List.exists_mem_cons_iff, eq_comm (a := k),
      or_assoc, or_left_comm]

namespace Template

variable {t : Template} {a b : Arguments} {name text x : String} {accepted : List HashAlgorithm}

theorem of_define (defined : define name text accepted = .ok t) : t.text = text ∧
    t.parameters = (Placeholder.scan text).foldl (fun names p => insertName p.name names) [] := by
  obtain ⟨-, preferred, -, rfl⟩ := define_eq_ok_iff.1 defined
  exact ⟨rfl, rfl⟩

theorem nodup_parameters (defined : define name text accepted = .ok t) : t.parameters.Nodup := by
  obtain ⟨-, parameters_eq⟩ := of_define defined
  rw [parameters_eq]
  exact (foldl_insertName _ .nil).1.imp String.ne_of_lt

theorem mem_parameters_iff (defined : define name text accepted = .ok t) :
    k ∈ t.parameters ↔ ∃ p ∈ Placeholder.scan t.text, p.name = k := by
  obtain ⟨text_eq, parameters_eq⟩ := of_define defined
  rw [parameters_eq, text_eq, (foldl_insertName _ .nil).2]
  simp

/-- Arguments that a template takes. -/
structure Fits (t : Template) (a : Arguments) : Prop where
  keys : ∀ k, k ∈ a.keys ↔ k ∈ t.parameters
  visible : ∀ v ∈ a.values, Text.allBlank v = false

def Refuses (t : Template) (a : Arguments) : Misfit → Prop
  | .unknown k => k ∈ a.keys ∧ k ∉ t.parameters
  | .missing p => p ∈ t.parameters ∧ p ∉ a.keys
  | .blank p => p ∈ t.parameters ∧ ∃ v, a.get? p = some v ∧ Text.allBlank v = true

def misfitAt (a : Arguments) (p : String) : Option Misfit :=
  match a.get? p with
  | none => some (.missing p)
  | some v => if Text.allBlank v then some (.blank p) else none

def misfits (t : Template) (a : Arguments) : List Misfit :=
  (a.keys.filter fun k => !t.parameters.contains k).map .unknown ++
    t.parameters.filterMap (misfitAt a)

theorem problems_eq (t : Template) (a : Arguments) :
    t.problems a = (t.misfits a).map Misfit.text := by
  simp only [problems, misfits, List.map_append, List.map_map, List.map_filterMap,
    Function.comp_def, Misfit.text_unknown]
  refine congrArg (_ ++ ·) (List.filterMap_congr fun p _ => ?_)
  rw [misfitAt]
  cases a.get? p with
  | none => rw [Option.map_some, Misfit.text_missing]
  | some v =>
    dsimp only
    split
    · rw [Option.map_some, Misfit.text_blank]
    · rfl

theorem misfitAt_eq_some_iff {p : String} {m : Misfit} : misfitAt a p = some m ↔
    (m = .missing p ∧ p ∉ a.keys) ∨
      (m = .blank p ∧ ∃ v, a.get? p = some v ∧ Text.allBlank v = true) := by
  rw [← Arguments.get?_eq_none_iff, misfitAt]
  cases a.get? p with
  | none => simp [eq_comm (a := m)]
  | some v => by_cases blank : Text.allBlank v = true <;> simp [blank, eq_comm (a := m)]

theorem mem_misfits_iff {m : Misfit} : m ∈ t.misfits a ↔ t.Refuses a m := by
  rw [misfits, List.mem_append, List.mem_map, List.mem_filterMap]
  cases m <;> simp [misfitAt_eq_some_iff, Refuses]

theorem nodup_misfits (nodup : t.parameters.Nodup) : (t.misfits a).Nodup := by
  refine List.nodup_append.2 ⟨?_, ?_, ?_⟩
  · exact (a.nodup_keys.filter _).map fun _ _ => Misfit.unknown.inj
  · refine nodup.filterMap fun p q m here there => ?_
    obtain ⟨rfl, -⟩ | ⟨rfl, -⟩ := misfitAt_eq_some_iff.1 here <;>
      exact (by simpa using misfitAt_eq_some_iff.1 there : p = q ∧ _).1
  · rintro m unknown _ known rfl
    obtain ⟨k, -, rfl⟩ := List.mem_map.1 unknown
    obtain ⟨p, -, found⟩ := List.mem_filterMap.1 known
    simp [misfitAt_eq_some_iff] at found

theorem fits_iff : t.Fits a ↔ ∀ m, ¬ t.Refuses a m := by
  constructor
  · rintro ⟨keys, visible⟩ (k | p | p)
    · exact fun ⟨mem, strange⟩ => strange ((keys k).1 mem)
    · exact fun ⟨mem, missing⟩ => missing ((keys p).2 mem)
    · rintro ⟨-, v, found, blank⟩
      simp [visible v (Arguments.mem_values_iff.2 ⟨p, found⟩)] at blank
  · intro accepted
    have keys (k : String) : k ∈ a.keys ↔ k ∈ t.parameters :=
      ⟨fun mem => Decidable.byContradiction fun strange => accepted (.unknown k) ⟨mem, strange⟩,
        fun mem => Decidable.byContradiction fun missing => accepted (.missing k) ⟨mem, missing⟩⟩
    refine ⟨keys, fun v mem => ?_⟩
    obtain ⟨k, found⟩ := Arguments.mem_values_iff.1 mem
    have known := (keys k).1 (Arguments.mem_keys_iff.2 ⟨v, found⟩)
    exact Bool.eq_false_iff.2 fun blank => accepted (.blank k) ⟨known, v, found, blank⟩

theorem misfits_eq_nil_iff : t.misfits a = [] ↔ t.Fits a := by
  simp only [List.eq_nil_iff_forall_not_mem, mem_misfits_iff, fits_iff]

theorem validate_eq_ok_iff : t.validate a = .ok () ↔ t.Fits a := by
  rw [← misfits_eq_nil_iff]
  unfold validate
  rw [problems_eq]
  cases t.misfits a <;> simp

theorem render_of_not_fits (unfit : ¬ t.Fits a) :
    t.render a = .error (.contractInvalid t.name ((t.misfits a).map Misfit.text)) := by
  obtain ⟨m, rest, some⟩ := List.exists_cons_of_ne_nil (mt misfits_eq_nil_iff.1 unfit)
  unfold render validate
  rw [problems_eq, some]
  rfl

theorem mem_parameters_of_slot {slot : List Char} (defined : define name text accepted = .ok t)
    (mem : .slot slot ∈ pieces t.text.toList) : .ofList slot ∈ t.parameters :=
  (mem_parameters_iff defined).2 (Placeholder.exists_mem_ofPieces_iff.2 ⟨slot, mem, rfl⟩)

def braced (v : String) : String :=
  .ofList ('{' :: (v.toList ++ ['}']))

/-- The bytes of a text from a cursor on, with a value in place of each placeholder ahead. -/
def substitute (bytes : List UInt8) (value : String → String) : Nat → List Placeholder → List UInt8
  | cursor, [] => bytes.drop cursor
  | cursor, p :: ps => (bytes.drop cursor).take (p.start - cursor) ++
      (Text.utf8 (braced (value p.name)) ++ substitute bytes value p.stop ps)

def valueOf (a : Arguments) (k : String) : String :=
  (a.get? k).getD ""

def put (a : Arguments) : Piece → List Char
  | .plain c => [c]
  | .slot name => (braced (valueOf a (.ofList name))).toList

theorem fill_slot {slot : List Char} (has : .ofList slot ∈ a.keys) :
    t.fill a (.slot slot) = .ok (put a (.slot slot)) := by
  obtain ⟨v, found⟩ := Arguments.mem_keys_iff.1 has
  unfold fill
  simp [found, put, braced, valueOf]

def filled (t : Template) (a : Arguments) : String :=
  String.ofList ((pieces t.text.toList).flatMap (put a))

theorem render_of_fits (defined : define name text accepted = .ok t) (fits : t.Fits a) :
    t.render a = .ok (t.filled a) := by
  have each : ∀ piece ∈ pieces t.text.toList, t.fill a piece = .ok (put a piece) := by
    intro piece mem
    cases piece with
    | plain c => rfl
    | slot slot => exact fill_slot ((fits.keys _).2 (mem_parameters_of_slot defined mem))
  have all : (pieces t.text.toList).mapM (t.fill a) = .ok ((pieces t.text.toList).map (put a)) :=
    mapM_eq_ok_iff.2 (List.forall₂_map_right_iff.2 (List.forall₂_same.2 each))
  unfold render
  rw [validate_eq_ok_iff.2 fits, all]
  rfl

theorem render_eq_ok_iff (defined : define name text accepted = .ok t) :
    t.render a = .ok x ↔ t.Fits a ∧ x = t.filled a := by
  by_cases fits : t.Fits a
  · simp [render_of_fits defined fits, fits, eq_comm]
  · simp [render_of_not_fits fits, fits]

theorem substitute_ofPieces (a : Arguments) (ps : List Piece) (before : List UInt8)
    (plain : List Char) :
    substitute (before ++ (Text.encode plain ++ Text.encode (ps.flatMap Piece.chars))) (valueOf a)
        before.length (Placeholder.ofPieces (before.length + utf8Length plain) ps) =
      Text.encode plain ++ Text.encode (ps.flatMap (put a)) := by
  induction ps generalizing before plain with
  | nil => simp [Placeholder.ofPieces, substitute]
  | cons piece ps ih =>
    cases piece with
    | plain c =>
      have := ih before (plain ++ [c])
      simpa [Placeholder.ofPieces, Piece.chars, put, Nat.add_assoc] using this
    | slot name =>
      have next := ih (before ++ (Text.encode plain ++ Text.encode (Piece.slot name).chars)) []
      have bytes_eq : before ++ (Text.encode plain ++
            Text.encode ((Piece.slot name :: ps).flatMap Piece.chars)) =
          before ++ (Text.encode plain ++ Text.encode (Piece.slot name).chars) ++
            (Text.encode [] ++ Text.encode (ps.flatMap Piece.chars)) := by simp
      have stop_eq : (before ++ (Text.encode plain ++ Text.encode (Piece.slot name).chars)).length =
          before.length + utf8Length plain + utf8Length (Piece.slot name).chars := by
        simp [Text.length_encode, Nat.add_assoc]
      rw [← bytes_eq, stop_eq, utf8Length_nil, Nat.add_zero] at next
      have between : ((before ++ (Text.encode plain ++ Text.encode ((Piece.slot name :: ps).flatMap
          Piece.chars))).drop before.length).take (before.length + utf8Length plain - before.length) =
          Text.encode plain := by
        rw [List.drop_left, Nat.add_sub_cancel_left, ← Text.length_encode, List.take_left]
      rw [Placeholder.ofPieces, substitute, next, between, List.flatMap_cons, Text.encode_append,
        put, ← Text.utf8_eq_encode]
      rfl

theorem utf8_filled (t : Template) (a : Arguments) : Text.utf8 (t.filled a) =
    substitute (Text.utf8 t.text) (valueOf a) 0 (Placeholder.scan t.text) := by
  have := substitute_ofPieces a (pieces t.text.toList) [] []
  rw [flatMap_chars_pieces] at this
  rw [filled, Text.utf8_ofList, Text.utf8_eq_encode, Placeholder.scan]
  exact this.symm

theorem isBlank_of_nameChar {c : Char} (h : NameChar c) : Text.isBlank c = false := by
  have blank_iff : Text.isBlank c = true → c.toNat ≤ 32 ∨ 0x85 ≤ c.toNat := by
    simp only [Text.isBlank, Bool.or_eq_true, Bool.and_eq_true, decide_eq_true_eq, beq_iff_eq]
    omega
  obtain ⟨above, below⟩ := h.bounds
  refine Bool.eq_false_iff.2 fun blank => ?_
  have := blank_iff blank
  omega

def selfNamed (t : Template) : Arguments :=
  .ofList (t.parameters.map fun k => (k, k))

theorem get?_selfNamed (t : Template) (k : String) :
    t.selfNamed.get? k = if k ∈ t.parameters then some k else none :=
  Arguments.get?_ofList_self t.parameters k

theorem fits_selfNamed (defined : define name text accepted = .ok t) : t.Fits t.selfNamed := by
  refine ⟨fun k => ?_, fun v mem => ?_⟩
  · rw [Arguments.mem_keys_iff, get?_selfNamed]
    split <;> simp [*]
  · obtain ⟨k, found⟩ := Arguments.mem_values_iff.1 mem
    rw [get?_selfNamed] at found
    split at found
    next known =>
      cases found
      obtain ⟨p, scanned, rfl⟩ := (mem_parameters_iff defined).1 known
      obtain ⟨named, chars, -⟩ := Placeholder.mem_scan_iff.1 scanned
      obtain ⟨c, rest, cs⟩ := List.exists_cons_of_ne_nil named
      rw [Text.allBlank, cs, List.all_cons, isBlank_of_nameChar (chars c (by simp [cs])),
        Bool.false_and]
    next => cases found

theorem filled_selfNamed (defined : define name text accepted = .ok t) :
    t.filled t.selfNamed = t.text := by
  have kept : (pieces t.text.toList).flatMap (put t.selfNamed) =
      (pieces t.text.toList).flatMap Piece.chars := by
    refine List.flatMap_congr fun piece mem => ?_
    cases piece with
    | plain c => rfl
    | slot slot =>
      simp [put, braced, valueOf, Piece.chars, get?_selfNamed, mem_parameters_of_slot defined mem]
  rw [filled, kept, flatMap_chars_pieces, String.ofList_toList]

theorem append_cons_inj {c : Char} {v w cs ds : List Char} (v_open : c ∉ v) (w_open : c ∉ w)
    (same : v ++ c :: cs = w ++ c :: ds) : v = w ∧ cs = ds := by
  obtain ⟨u, rfl, rest⟩ | ⟨u, rfl, rest⟩ := List.append_eq_append_iff.1 same
  · cases u with
    | nil => exact ⟨by simp, (List.cons.inj rest).2⟩
    | cons d u =>
      obtain ⟨rfl, -⟩ := List.cons.inj rest
      simp at w_open
  · cases u with
    | nil => exact ⟨by simp, (List.cons.inj rest).2.symm⟩
    | cons d u =>
      obtain ⟨rfl, -⟩ := List.cons.inj rest
      simp at v_open

def Closed (a : Arguments) : Prop :=
  ∀ v ∈ a.values, '}' ∉ v.toList

theorem Closed.valueOf (closed : Closed a) (k : String) : '}' ∉ (valueOf a k).toList := by
  rw [Template.valueOf]
  cases found : a.get? k with
  | none => simp
  | some v => exact closed v (Arguments.mem_values_iff.2 ⟨k, found⟩)

theorem valueOf_eq_of_put {ps : List Piece} (a_closed : Closed a) (b_closed : Closed b)
    (same : ps.flatMap (put a) = ps.flatMap (put b)) :
    ∀ name, .slot name ∈ ps → valueOf a (.ofList name) = valueOf b (.ofList name) := by
  induction ps with
  | nil => simp
  | cons piece ps ih =>
    cases piece with
    | plain c =>
      have rest := ih (List.cons.inj same).2
      simpa using rest
    | slot name =>
      simp only [List.flatMap_cons, put, braced, String.toList_ofList, List.cons_append,
        List.append_assoc, List.nil_append, List.cons.injEq, true_and] at same
      obtain ⟨value, rest⟩ := append_cons_inj (a_closed.valueOf _) (b_closed.valueOf _) same
      intro name' mem
      obtain ⟨⟩ | ⟨_, mem⟩ := mem
      · exact String.toList_inj.1 value
      · exact ih rest name' mem

theorem eq_of_filled_eq (defined : define name text accepted = .ok t) (a_fits : t.Fits a)
    (b_fits : t.Fits b) (a_closed : Closed a) (b_closed : Closed b)
    (same : t.filled a = t.filled b) : a = b := by
  have values := valueOf_eq_of_put a_closed b_closed (String.ofList_injective same)
  refine Arguments.ext_get? fun k => ?_
  by_cases known : k ∈ t.parameters
  · obtain ⟨v, a_found⟩ := Arguments.mem_keys_iff.1 ((a_fits.keys k).2 known)
    obtain ⟨w, b_found⟩ := Arguments.mem_keys_iff.1 ((b_fits.keys k).2 known)
    obtain ⟨name, mem, rfl⟩ :=
      Placeholder.exists_mem_ofPieces_iff.1 ((mem_parameters_iff defined).1 known)
    have value := values name mem
    rw [valueOf, valueOf, a_found, b_found] at value
    rw [a_found, b_found]
    exact congrArg some value
  · rw [Arguments.get?_eq_none_iff.2 (mt (a_fits.keys k).1 known),
      Arguments.get?_eq_none_iff.2 (mt (b_fits.keys k).1 known)]

structure RendersExactly (t : Template) : Prop where
  parameters : ∀ k, k ∈ t.parameters ↔ ∃ p ∈ Placeholder.scan t.text, p.name = k
  renders_iff : ∀ a, (∃ x, t.render a = .ok x) ↔ t.Fits a
  reports : ∀ a, ¬ t.Fits a → ∃ misfits : List Misfit, (misfits.map Misfit.text).Nodup ∧
    (∀ m, m ∈ misfits ↔ t.Refuses a m) ∧
    t.render a = .error (.contractInvalid t.name (misfits.map Misfit.text))
  substitutes : ∀ a x, t.render a = .ok x →
    Text.utf8 x = substitute (Text.utf8 t.text) (valueOf a) 0 (Placeholder.scan t.text)
  restores : t.render t.selfNamed = .ok t.text
  injective : ∀ a b, t.Fits a → t.Fits b → Closed a → Closed b → t.render a = t.render b → a = b

/-- A template puts in what it is given, at its placeholders, and loses nothing of it or of its
text. -/
theorem rendersExactly (defined : define name text accepted = .ok t) :
    t.text = text ∧ t.RendersExactly := by
  refine ⟨(of_define defined).1, fun k => mem_parameters_iff defined, fun a => ?_,
    fun a unfit => ?_, fun a x rendered => ?_, ?_,
    fun a b a_fits b_fits a_closed b_closed same => ?_⟩
  · simp [render_eq_ok_iff defined]
  · exact ⟨t.misfits a, (nodup_misfits (nodup_parameters defined)).map Misfit.text_injective,
      fun m => mem_misfits_iff, render_of_not_fits unfit⟩
  · rw [((render_eq_ok_iff defined).1 rendered).2, utf8_filled]
  · rw [render_of_fits defined (fits_selfNamed defined), filled_selfNamed defined]
  · rw [render_of_fits defined a_fits, render_of_fits defined b_fits] at same
    exact eq_of_filled_eq defined a_fits b_fits a_closed b_closed (Except.ok.inj same)

end Template

namespace Templates

variable {ts : Templates} {s : Settings} {c : Contract} {t : Template}

theorem render_eq_ok (sound : ts.Sound s) (fits : ts.validate c = .ok t) :
    ∃ text, ts.render c = .ok text := by
  obtain ⟨found, valid⟩ := validate_eq_ok fits
  obtain ⟨name, text, defined⟩ := sound t (byHash_eq_ok found).1
  refine ⟨t.filled c.arguments, ?_⟩
  rw [render, found]
  exact Template.render_of_fits defined (Template.validate_eq_ok_iff.1 valid)

end Templates

namespace Sample

theorem order_defined : ∃ t, Template.define "Order"
    "\x7bamount\x7d of \x7barticle\x7d, \x7bamount\x7d in all" [.sha256] = .ok t := by
  have named : Text.allBlank "Order" = false := by decide
  have preferred : HashAlgorithm.preferred? [.sha256] = some .sha256 := by decide
  unfold Template.define
  rw [named, preferred]
  exact ⟨_, rfl⟩

theorem order_renders : ∃ t,
    Template.define "Order" "\x7bamount\x7d of \x7barticle\x7d, \x7bamount\x7d in all"
        [.sha256] = .ok t ∧
      t.text = "\x7bamount\x7d of \x7barticle\x7d, \x7bamount\x7d in all" ∧ t.RendersExactly := by
  obtain ⟨t, defined⟩ := order_defined
  exact ⟨t, defined, Template.rendersExactly defined⟩

end Sample

end Parley
