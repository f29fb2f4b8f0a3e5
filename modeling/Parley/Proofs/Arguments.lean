import Mathlib.Data.List.Nodup
import Parley.Arguments

namespace Parley.Arguments

variable {a b : Arguments} {k v : String}

theorem get?_eq_some_iff : a.get? k = some v ↔ (k, v) ∈ a.entries := by
  rw [get?, List.lookup_eq_some_iff]
  constructor
  · rintro ⟨before, after, whole, -⟩
    simp [whole]
  · intro mem
    obtain ⟨before, after, whole⟩ := List.append_of_mem mem
    have sorted := a.sorted
    rw [whole, List.pairwise_append] at sorted
    refine ⟨before, after, whole, fun e earlier => ?_⟩
    exact bne_iff_ne.2 (String.ne_of_lt (sorted.2.2 e earlier _ List.mem_cons_self)).symm

theorem mem_keys_iff : k ∈ a.keys ↔ ∃ v, a.get? k = some v := by
  simp [keys, get?_eq_some_iff]

theorem mem_values_iff : v ∈ a.values ↔ ∃ k, a.get? k = some v := by
  simp [values, get?_eq_some_iff]

theorem get?_eq_none_iff : a.get? k = none ↔ k ∉ a.keys := by
  rw [mem_keys_iff, ← Option.isSome_iff_exists, Bool.not_eq_true, Option.isSome_eq_false_iff,
    Option.isNone_iff_eq_none]

theorem nodup_keys (a : Arguments) : a.keys.Nodup :=
  List.pairwise_map.2 (a.sorted.imp String.ne_of_lt)

theorem nodup_entries (a : Arguments) : a.entries.Nodup :=
  List.Nodup.of_map Prod.fst a.nodup_keys

theorem ext_get? (same : ∀ k, a.get? k = b.get? k) : a = b := by
  have perm : a.entries.Perm b.entries :=
    (List.perm_ext_iff_of_nodup a.nodup_entries b.nodup_entries).2 fun (k, v) => by
      rw [← get?_eq_some_iff, ← get?_eq_some_iff, same]
  have entries_eq := perm.eq_of_pairwise
    (fun e f _ _ lt gt => absurd (String.lt_trans lt gt) (String.lt_irrefl e.1)) a.sorted b.sorted
  obtain ⟨entries, _⟩ := a
  obtain ⟨entries', _⟩ := b
  subst entries_eq
  rfl

theorem lookup_cons_ite (k v k' : String) (rest : List (String × String)) :
    ((k, v) :: rest).lookup k' = if k' = k then some v else rest.lookup k' := by
  by_cases same : k' = k
  · rw [same, if_pos rfl, List.lookup_cons_self]
  · rw [if_neg same, List.lookup_cons, beq_eq_false_iff_ne.2 same]

theorem lookup_insertByKey (k v k' : String) (entries : List (String × String)) :
    (insertByKey k v entries).lookup k' = if k' = k then some v else entries.lookup k' := by
  induction entries with
  | nil => rw [insertByKey, lookup_cons_ite]
  | cons e rest ih =>
    obtain ⟨l, w⟩ := e
    rw [insertByKey]
    split
    · rw [lookup_cons_ite]
    · split
      next here =>
        rw [here, lookup_cons_ite, lookup_cons_ite]
        split <;> rfl
      next elsewhere =>
        rw [lookup_cons_ite, lookup_cons_ite, ih]
        split
        next there => rw [if_neg fun here => elsewhere (here.symm.trans there)]
        next => rfl

theorem get?_insert (a : Arguments) (k v k' : String) :
    (a.insert k v).get? k' = if k' = k then some v else a.get? k' :=
  lookup_insertByKey k v k' a.entries

theorem get?_ofList_self (names : List String) (k : String) :
    (ofList (names.map fun k => (k, k))).get? k = if k ∈ names then some k else none := by
  have step (a : Arguments) : (names.foldl (fun a n => a.insert n n) a).get? k =
      if k ∈ names then some k else a.get? k := by
    induction names generalizing a with
    | nil => simp
    | cons n names ih =>
      rw [List.foldl_cons, ih, get?_insert]
      by_cases same : k = n <;> by_cases mem : k ∈ names <;> simp [same, mem]
  rw [ofList, List.foldl_map]
  exact step empty

end Parley.Arguments
