import Parley.Text.Utf8

namespace Parley

def isNameChar (c : Char) : Bool :=
  c.isAlphanum || c == '_' || c == '-' || c == '.'

/-- A placeholder and where it stands in the text: from its opening brace to after its closing one,
counted in bytes. -/
structure Placeholder where
  name : String
  start : Nat
  stop : Nat
  deriving DecidableEq, Repr

def utf8Length (cs : List Char) : Nat :=
  cs.foldl (fun n c => n + c.utf8Size) 0

/-- A stretch of a text: a character that stands for itself, or a placeholder. -/
inductive Piece where
  | plain (c : Char)
  | slot (name : List Char)
  deriving DecidableEq, Repr

def slot? (cs : List Char) : Option (List Char × List Char) :=
  match cs.takeWhile isNameChar, cs.dropWhile isNameChar with
  | c :: name, '}' :: rest => some (c :: name, rest)
  | _, _ => none

theorem length_slot?_lt {cs name rest : List Char} (h : slot? cs = some (name, rest)) :
    rest.length < cs.length := by
  unfold slot? at h
  split at h
  next c name' rest' ht hd =>
    have := congrArg List.length (List.takeWhile_append_dropWhile (p := isNameChar) (l := cs))
    simp only [ht, hd, List.length_append, List.length_cons] at this
    simp only [Option.some.injEq, Prod.mk.injEq] at h
    rw [← h.2]
    omega
  next => simp at h

def pieces : List Char → List Piece
  | [] => []
  | c :: rest =>
    if c = '{' then
      match _h : slot? rest with
      | some (name, after) => .slot name :: pieces after
      | none => .plain c :: pieces rest
    else .plain c :: pieces rest
termination_by cs => cs.length
decreasing_by
  · have := length_slot?_lt ‹_›
    simp only [List.length_cons]
    omega
  all_goals simp

def Piece.chars : Piece → List Char
  | .plain c => [c]
  | .slot name => '{' :: (name ++ ['}'])

def Placeholder.ofPieces (position : Nat) : List Piece → List Placeholder
  | [] => []
  | .plain c :: rest => ofPieces (position + c.utf8Size) rest
  | .slot name :: rest =>
    let stop := position + utf8Length (Piece.slot name).chars
    ⟨String.ofList name, position, stop⟩ :: ofPieces stop rest

def Placeholder.scan (text : String) : List Placeholder :=
  ofPieces 0 (pieces text.toList)

theorem flatMap_chars_pieces (cs : List Char) : (pieces cs).flatMap Piece.chars = cs := by
  fun_induction pieces cs with
  | case1 => rfl
  | case2 rest name after h ih =>
    unfold slot? at h
    split at h
    next c name' rest' ht hd =>
      simp only [Option.some.injEq, Prod.mk.injEq] at h
      obtain ⟨rfl, rfl⟩ := h
      have := List.takeWhile_append_dropWhile (p := isNameChar) (l := rest)
      rw [ht, hd] at this
      simp [List.flatMap_cons, Piece.chars, ih, ← this]
    next => simp at h
  | case3 rest h ih => simp [List.flatMap_cons, Piece.chars, ih]
  | case4 c rest hc ih => simp [List.flatMap_cons, Piece.chars, ih]

end Parley
