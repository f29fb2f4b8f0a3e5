import Parley.Json.Decode
import Parley.Proofs.Json

namespace Parley.Json

variable {v : Json} {r : List Char} {n fuel depth : Nat}

def digits (n : Nat) : List Nat :=
  (Nat.toDigits 10 n).map fun c => c.toNat - 48

def numeral : Int → Numeral
  | .ofNat n => ⟨false, digits n, none, none⟩
  | .negSucc n => ⟨true, digits (n + 1), none, none⟩

mutual

def reading (ahead : Bool) : Json → Reading
  | .null => .null
  | .bool b => .bool b
  | .int n => .number (numeral n)
  | .text s => .text s
  | .array items => .array (readings ahead items) true
  | .object members =>
    if ahead && members.isEmpty then .hollow else .object (memberReadings ahead members) true

def readings (ahead : Bool) : List Json → List Reading
  | [] => []
  | v :: rest => v.reading ahead :: readings ahead rest

def memberReadings (ahead : Bool) : List (String × Json) → List (Option String × Reading)
  | [] => []
  | (k, v) :: rest => (some k, v.reading ahead) :: memberReadings ahead rest

end

def Ends (r : List Char) : Prop :=
  ∀ c rest, r = c :: rest → c.isDigit = false ∧ c ≠ '.' ∧ c ≠ 'e' ∧ c ≠ 'E'

theorem ends_nil : Ends [] := nofun

theorem ends_cons {c : Char} (other : c.isDigit = false ∧ c ≠ '.' ∧ c ≠ 'e' ∧ c ≠ 'E') :
    Ends (c :: r) := by
  rintro c rest ⟨⟩
  exact other

theorem Ends.stops (ends : Ends r) : Stops r :=
  fun c rest same => (ends c rest same).1

theorem digits_head (positive : 0 < n) : ∃ d rest, digits n = (d + 1) :: rest := by
  induction n using Nat.strongRecOn with
  | _ n ih =>
    unfold digits
    obtain small | large := Nat.lt_or_ge n 10
    · rw [Nat.toDigits_of_lt_base small, List.map_singleton, Nat.toNat_digitChar_sub_48_of_lt_ten small]
      exact ⟨n - 1, [], by rw [Nat.sub_add_cancel positive]⟩
    · obtain ⟨d, rest, written⟩ := ih (n / 10) (by omega) (by omega)
      unfold digits at written
      rw [Nat.toDigits_of_base_le (by decide) large, List.map_append, written, List.cons_append]
      exact ⟨d, _, rfl⟩

theorem natOfDigits_digits (n : Nat) : natOfDigits (digits n) = n := by
  have read := Nat.ofDigitChars_ten_toDigits (n := n)
  unfold Nat.ofDigitChars at read
  rw [natOfDigits, digits, List.foldl_map]
  simp only [Nat.mul_comm 10] at read
  exact read

theorem readDigits_toDigits (n : Nat) (stops : Stops r) :
    readDigits (Nat.toDigits 10 n ++ r) = (digits n, r) := by
  have all : ∀ c ∈ Nat.toDigits 10 n, c.isDigit = true := fun c mem =>
    Nat.isDigit_of_mem_toDigits (by decide) (by decide) mem
  unfold readDigits
  rw [(span_digits all stops).1, (span_digits all stops).2]
  rfl

theorem readWhole_toDigits (n : Nat) (stops : Stops r) :
    readWhole (Nat.toDigits 10 n ++ r) = some (digits n, r) := by
  unfold readWhole
  rw [readDigits_toDigits n stops]
  obtain rfl | positive := n.eq_zero_or_pos
  · rfl
  · obtain ⟨d, rest, written⟩ := digits_head positive
    rw [written]
    rfl

theorem readFraction_of_ends (ends : Ends r) : readFraction r = some (none, r) := by
  unfold readFraction
  split
  next rest => exact absurd rfl (ends '.' rest rfl).2.1
  next => rfl

theorem readExponent_of_ends (ends : Ends r) : readExponent r = some (none, r) := by
  unfold readExponent
  split
  next e rest =>
    rw [if_neg]
    exact not_or.2 (ends e rest rfl).2.2
  next => rfl

theorem readNumeral_renderInt (n : Int) (ends : Ends r) :
    readNumeral (renderInt n ++ r) = some (numeral n, r) := by
  have rest_read : ∀ n, (readWhole (Nat.toDigits 10 n ++ r)) = some (digits n, r) :=
    fun n => readWhole_toDigits n ends.stops
  cases n with
  | ofNat n =>
    unfold readNumeral renderInt
    dsimp only
    split
    next minus => exact absurd minus toDigits_ne_minus
    next =>
      simp only [rest_read, readFraction_of_ends ends, readExponent_of_ends ends,
        Option.bind_eq_bind, Option.bind_some]
      rfl
  | negSucc n =>
    simp only [readNumeral, renderInt, List.cons_append, rest_read, readFraction_of_ends ends,
      readExponent_of_ends ends, Option.bind_eq_bind, Option.bind_some]
    rfl

theorem isSpace_of_leads {c : Char} {kind : Nat} (known : leads c = some kind) : isSpace c = false := by
  unfold isSpace
  simp only [Bool.or_eq_false_iff, beq_eq_false_iff_ne]
  refine ⟨⟨⟨?_, ?_⟩, ?_⟩, ?_⟩ <;> rintro rfl <;> cases known

theorem skipSpace_cons {c : Char} (visible : isSpace c = false) : skipSpace (c :: r) = c :: r := by
  unfold skipSpace
  rw [List.dropWhile_cons_of_neg (by simp [visible])]

theorem skipSpace_render (v : Json) (r : List Char) : skipSpace (v.render ++ r) = v.render ++ r := by
  obtain ⟨c, rest, written, known⟩ := render_leads v
  rw [written, List.cons_append, skipSpace_cons (isSpace_of_leads known)]

theorem readValue_int (fuel : Nat) (n : Int) (ends : Ends r) :
    readValue (fuel + 1) (renderInt n ++ r) = (.number (numeral n), some r) := by
  have start := skipSpace_render (.int n) r
  have read := readNumeral_renderInt n ends
  rw [render] at start
  rw [readValue, start]
  obtain ⟨c, rest, written, known⟩ := render_leads (.int n)
  rw [render] at written
  rw [written, List.cons_append] at read ⊢
  split
  case h_7 => rw [read]
  all_goals
    next same =>
      rw [(List.cons.inj same).1] at known
      cases known

theorem readValue_quote (fuel : Nat) (cs : List Char) :
    readValue (fuel + 1) ('"' :: cs) = match readText cs with
      | none => (.broken, none)
      | some (none, rest) => (.garbled, some rest)
      | some (some spelled, rest) => (.text (String.ofList spelled), some rest) :=
  rfl

theorem readValue_bracket (fuel : Nat) (cs : List Char) :
    readValue (fuel + 1) ('[' :: cs) = match skipSpace cs with
      | ']' :: rest => (.array [] true, some rest)
      | rest => (.array (readItems fuel rest).1 (readItems fuel rest).2.isSome,
          (readItems fuel rest).2) :=
  rfl

theorem readValue_brace (fuel : Nat) (cs : List Char) :
    readValue (fuel + 1) ('\x7b' :: cs) = match skipSpace cs with
      | '\x7d' :: rest => (.object [] true, some rest)
      | rest => (.object (readMembers fuel rest).1 (readMembers fuel rest).2.isSome,
          (readMembers fuel rest).2) :=
  rfl

theorem readValue_renderText (fuel : Nat) (s : String) (r : List Char) :
    readValue (fuel + 1) (renderText s ++ r) = (.text s, some r) := by
  rw [renderText, List.cons_append, List.append_assoc, List.singleton_append, readValue_quote,
    readText_escape]
  dsimp only
  rw [String.ofList_toList]

theorem readValue_array {items : List Json} {found : List Reading} (some_items : items ≠ [])
    (read : readItems fuel (renderItems items ++ r) = (found, some r)) :
    readValue (fuel + 1) ('[' :: renderItems items ++ r) = (.array found true, some r) := by
  obtain ⟨v, rest, rfl⟩ := List.exists_cons_of_ne_nil some_items
  rw [renderItems_cons, List.append_assoc] at read
  rw [List.cons_append, readValue_bracket, renderItems_cons, List.append_assoc, skipSpace_render]
  split
  next closed => exact absurd closed (render_ne rfl)
  next => rw [read]; rfl

theorem readValue_object {members : List (String × Json)} {found : List (Option String × Reading)}
    (some_members : members ≠ [])
    (read : readMembers fuel (renderMembers members ++ r) = (found, some r)) :
    readValue (fuel + 1) ('\x7b' :: renderMembers members ++ r) = (.object found true, some r) := by
  obtain ⟨⟨k, v⟩, rest, rfl⟩ := List.exists_cons_of_ne_nil some_members
  rw [renderMembers_cons, renderText, List.cons_append, List.cons_append] at read
  rw [List.cons_append, readValue_brace, renderMembers_cons, renderText, List.cons_append,
    List.cons_append, skipSpace_cons (by decide)]
  split
  next closed => exact absurd (List.cons.inj closed).1 (by decide)
  next => rw [read]; rfl

theorem ends_after {close : Char} {more : List Char} {done : Bool}
    (closes : close.isDigit = false ∧ close ≠ '.' ∧ close ≠ 'e' ∧ close ≠ 'E') :
    Ends ((if done then [close] else ',' :: more) ++ r) := by
  cases done with
  | true => exact ends_cons closes
  | false => exact ends_cons (by decide)

mutual

/-- A value's text is read as the value, and what follows is left. Twice the length of the text is
fuel enough, for every character and every step between elements. -/
theorem readValue_render (v : Json) (fuel : Nat) (r : List Char) (ends : Ends r)
    (enough : 2 * v.render.length ≤ fuel) :
    readValue fuel (v.render ++ r) = (v.reading false, some r) := by
  obtain ⟨fuel, rfl⟩ : ∃ n, fuel = n + 1 := by
    obtain ⟨c, rest, written, -⟩ := render_leads v
    rw [written, List.length_cons] at enough
    exact ⟨fuel - 1, by omega⟩
  cases v with
  | null => rw [render]; rfl
  | bool b =>
    cases b with
    | true => rw [render]; rfl
    | false => rw [render]; rfl
  | int n =>
    rw [render]
    exact readValue_int fuel n ends
  | text s =>
    rw [render]
    exact readValue_renderText fuel s r
  | array items =>
    rw [render, List.length_cons] at enough
    rw [render]
    cases items with
    | nil => rw [renderItems]; rfl
    | cons v rest =>
      exact readValue_array (by simp) (readItems_render (v :: rest) fuel r (by simp) (by omega))
  | object members =>
    rw [render, List.length_cons] at enough
    rw [render]
    cases members with
    | nil => rw [renderMembers]; rfl
    | cons entry rest =>
      exact readValue_object (by simp) (readMembers_render (entry :: rest) fuel r (by simp) (by omega))

theorem readItems_render (items : List Json) (fuel : Nat) (r : List Char) (some_items : items ≠ [])
    (enough : 2 * (renderItems items).length ≤ fuel) :
    readItems fuel (renderItems items ++ r) = (readings false items, some r) := by
  match items with
  | [] => exact absurd rfl some_items
  | v :: rest =>
    have some_after : 0 < (if rest.isEmpty then [']'] else ',' :: renderItems rest).length := by
      split <;> simp
    rw [renderItems_cons, List.length_append] at enough
    obtain ⟨fuel, rfl⟩ : ∃ n, fuel = n + 1 := ⟨fuel - 1, by omega⟩
    rw [renderItems_cons, List.append_assoc, readItems,
      readValue_render v fuel _ (ends_after (by decide)) (by omega)]
    cases rest with
    | nil =>
      simp only [List.isEmpty_nil, ↓reduceIte, List.singleton_append]
      rw [skipSpace_cons (by decide)]
      rfl
    | cons w rest =>
      simp only [List.isEmpty_cons, Bool.false_eq_true, ↓reduceIte, List.length_cons] at enough
      simp only [List.isEmpty_cons, Bool.false_eq_true, ↓reduceIte, List.cons_append]
      rw [skipSpace_cons (by decide)]
      simp only
      rw [readItems_render (w :: rest) fuel r (by simp) (by omega)]
      rfl

theorem readMembers_render (members : List (String × Json)) (fuel : Nat) (r : List Char)
    (some_members : members ≠ []) (enough : 2 * (renderMembers members).length ≤ fuel) :
    readMembers fuel (renderMembers members ++ r) = (memberReadings false members, some r) := by
  match members with
  | [] => exact absurd rfl some_members
  | (k, v) :: rest =>
    have some_after : 0 < (if rest.isEmpty then ['\x7d'] else ',' :: renderMembers rest).length := by
      split <;> simp
    rw [renderMembers_cons, List.length_append, List.length_cons, List.length_append] at enough
    obtain ⟨fuel, rfl⟩ : ∃ n, fuel = n + 1 := ⟨fuel - 1, by omega⟩
    rw [renderMembers_cons, renderText, List.cons_append, List.cons_append, readMembers,
      skipSpace_cons (by decide)]
    simp only [List.append_assoc, List.cons_append, List.nil_append]
    rw [readText_escape]
    simp only
    rw [skipSpace_cons (by decide)]
    simp only [Option.map_some, String.ofList_toList]
    rw [readValue_render v fuel _ (ends_after (by decide)) (by omega)]
    cases rest with
    | nil =>
      simp only [List.isEmpty_nil, ↓reduceIte, List.singleton_append]
      rw [skipSpace_cons (by decide)]
      rfl
    | cons entry rest =>
      simp only [List.isEmpty_cons, Bool.false_eq_true, ↓reduceIte, List.length_cons] at enough
      simp only [List.isEmpty_cons, Bool.false_eq_true, ↓reduceIte, List.cons_append]
      rw [skipSpace_cons (by decide)]
      simp only
      rw [readMembers_render (entry :: rest) fuel r (by simp) (by omega)]
      rfl

end

theorem read_compact (v : Json) : read v.compact = (v.reading false, true) := by
  have whole := readValue_render v (2 * v.render.length + 2) [] ends_nil (by omega)
  rw [List.append_nil] at whole
  unfold read compact
  rw [String.toList_ofList]
  dsimp only
  rw [whole]
  rfl

theorem decode_compact {α : Type} (decoder : Reading → Decoded α) (v : Json) :
    decode decoder v.compact = decoder (v.reading false) := by
  unfold decode
  rw [read_compact]
  exact bind_pure _

def Foreseen (depth : Nat) (v : Json) : Prop :=
  (v.reading false).ahead depth = some (v.reading true)

theorem foreseen_text (depth : Nat) (s : String) : Foreseen depth (.text s) :=
  rfl

theorem inRange_numeral (small : n < Nat.pow 2 64) : (numeral n).inRange = true := by
  have length_le : (digits n).length ≤ 20 := by
    rw [digits, List.length_map, Nat.length_toDigits_le_iff (by decide) (by decide)]
    exact Nat.lt_of_lt_of_le small (by decide)
  have dropped := (List.dropWhile_sublist (· == 0) (l := digits n)).length_le
  have whole : (numeral n).inRange = Numeral.inRange ⟨false, digits n, none, none⟩ := rfl
  rw [whole]
  unfold Numeral.inRange
  simp only [Option.getD_none, List.append_nil, List.length_nil]
  split
  · rfl
  · rw [if_neg (by omega), if_pos (by omega)]

theorem foreseen_int (depth : Nat) (small : n < Nat.pow 2 64) : Foreseen depth (.int n) := by
  unfold Foreseen
  rw [reading, reading, Reading.ahead, inRange_numeral small, if_pos rfl]

theorem foreseen_array {items : List Json} (within : ∀ v ∈ items, Foreseen depth v) :
    Foreseen (depth + 1) (.array items) := by
  have ahead_items : Reading.aheadItems depth (readings false items) = some (readings true items) := by
    induction items with
    | nil => rfl
    | cons v rest ih =>
      obtain ⟨first, others⟩ := List.forall_mem_cons.1 within
      rw [readings, Reading.aheadItems, first, ih others, readings]
      rfl
  unfold Foreseen
  rw [reading, reading, Reading.ahead, ahead_items]
  rfl

theorem foreseen_object {members : List (String × Json)}
    (within : ∀ entry ∈ members, Foreseen depth entry.2) :
    Foreseen (depth + 1) (.object members) := by
  have ahead_members : Reading.aheadMembers depth (memberReadings false members) =
      some (memberReadings true members) := by
    induction members with
    | nil => rfl
    | cons entry rest ih =>
      obtain ⟨first, others⟩ := List.forall_mem_cons.1 within
      rw [memberReadings, Reading.aheadMembers, first, ih others, memberReadings]
      rfl
  unfold Foreseen
  rw [reading, Bool.false_and, if_neg (by decide), Reading.ahead, ahead_members]
  cases members <;> rfl

end Parley.Json
