import Parley.Json.Basic
import Parley.Json.Decode

namespace Parley

open Json

def insertByKey (k v : String) : List (String × String) → List (String × String)
  | [] => [(k, v)]
  | (k', v') :: rest =>
    if k < k' then (k, v) :: (k', v') :: rest
    else if k = k' then (k, v) :: rest
    else (k', v') :: insertByKey k v rest

theorem mem_insertByKey {k v : String} {entries : List (String × String)} {e : String × String}
    (h : e ∈ insertByKey k v entries) : e = (k, v) ∨ e ∈ entries := by
  induction entries with
  | nil => simpa [insertByKey] using h
  | cons f rest ih =>
    simp only [insertByKey] at h
    split at h
    · simpa using h
    · split at h
      · rcases List.mem_cons.1 h with h | h
        · exact .inl h
        · exact .inr (List.mem_cons_of_mem _ h)
      · rcases List.mem_cons.1 h with h | h
        · exact .inr (h ▸ List.mem_cons_self)
        · exact (ih h).imp_right (List.mem_cons_of_mem _)

theorem pairwise_insertByKey (k v : String) {entries : List (String × String)}
    (h : entries.Pairwise (·.1 < ·.1)) : (insertByKey k v entries).Pairwise (·.1 < ·.1) := by
  induction entries with
  | nil => simp [insertByKey]
  | cons f rest ih =>
    obtain ⟨hf, hrest⟩ := List.pairwise_cons.1 h
    simp only [insertByKey]
    split
    next hlt =>
      refine List.pairwise_cons.2 ⟨fun e he => ?_, h⟩
      rcases List.mem_cons.1 he with he | he
      · exact he ▸ hlt
      · exact String.lt_trans hlt (hf e he)
    next hge =>
      split
      next heq => exact List.pairwise_cons.2 ⟨fun e he => heq ▸ hf e he, hrest⟩
      next hne =>
        refine List.pairwise_cons.2 ⟨fun e he => ?_, ih hrest⟩
        rcases mem_insertByKey he with he | he
        · subst he
          rcases String.le_total k f.1 with hle | hle
          · exact absurd (String.le_antisymm hle (String.not_lt.1 hge)) hne
          · exact Decidable.byContradiction fun hn =>
              hne (String.le_antisymm (String.not_lt.1 hn) hle)
        · exact hf e he

structure Arguments where
  entries : List (String × String)
  sorted : entries.Pairwise (·.1 < ·.1)
  deriving DecidableEq

namespace Arguments

def empty : Arguments := ⟨[], .nil⟩

def insert (a : Arguments) (k v : String) : Arguments :=
  ⟨insertByKey k v a.entries, pairwise_insertByKey k v a.sorted⟩

/-- The arguments of a list of pairs; of two values under one name the later stands. -/
def ofList (entries : List (String × String)) : Arguments :=
  entries.foldl (fun a (k, v) => a.insert k v) empty

def get? (a : Arguments) (k : String) : Option String :=
  a.entries.lookup k

def keys (a : Arguments) : List String :=
  a.entries.map (·.1)

def values (a : Arguments) : List String :=
  a.entries.map (·.2)

def toJson (a : Arguments) : Json :=
  .object (a.entries.map fun (k, v) => (k, .text v))

def putMembers : List (Option String × Reading) → Arguments → Decoded Arguments
  | [], a => .ok a
  | (none, _) :: _, _ => .error .malformed
  | (some k, v) :: rest, a => do
    let s ← decodeText v
    putMembers rest (a.insert k s)

def decode : Reading → Decoded Arguments
  | .object members closed => do
    let a ← putMembers members empty
    if closed then .ok a else .error .malformed
  | .hollow => .ok empty
  | _ => .error .malformed

end Arguments

end Parley
