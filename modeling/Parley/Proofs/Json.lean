import Mathlib.Tactic.SplitIfs
import Parley.Json.Basic
import Parley.Json.Reading

namespace Parley.Json

variable {v w : Json} {k l : String} {c d : Char} {ds es r s : List Char} {n m : Nat}

def Stops (r : List Char) : Prop :=
  ∀ c rest, r = c :: rest → c.isDigit = false

theorem stops_nil : Stops [] := nofun

theorem stops_cons (other : c.isDigit = false) : Stops (c :: r) := by
  rintro c rest ⟨⟩
  exact other

theorem span_digits (digits : ∀ c ∈ ds, c.isDigit = true) (stops : Stops r) :
    (ds ++ r).takeWhile Char.isDigit = ds ∧ (ds ++ r).dropWhile Char.isDigit = r := by
  have after : r.takeWhile Char.isDigit = [] ∧ r.dropWhile Char.isDigit = r := by
    cases r with
    | nil => exact ⟨rfl, rfl⟩
    | cons c rest => simp [stops c rest rfl]
  rw [List.takeWhile_append_of_pos digits, List.dropWhile_append_of_pos digits, after.1, after.2]
  exact ⟨List.append_nil ds, rfl⟩

theorem hexUnit?_control (small : n < 32) :
    hexUnit? '0' '0' (Nat.digitChar (n / 16)) (Nat.digitChar (n % 16)) = some n := by
  have all : ∀ n < 32,
      hexUnit? '0' '0' (Nat.digitChar (n / 16)) (Nat.digitChar (n % 16)) = some n := by decide
  exact all n small

theorem readText_unit {a b : Char} (unit : hexUnit? a b c d = some n) (small : n < 0xD800) :
    readText ('\\' :: 'u' :: a :: b :: c :: d :: r) = spell (Char.ofNat n) (readText r) := by
  have high : ¬ (0xD800 ≤ n ∧ n ≤ 0xDBFF) := by omega
  have low : ¬ (0xDC00 ≤ n ∧ n ≤ 0xDFFF) := by omega
  have alone : ¬ (0xD800 ≤ n ∧ n ≤ 0xDFFF) := by omega
  by_cases more : ∃ e f g h rest, r = '\\' :: 'u' :: e :: f :: g :: h :: rest
  · obtain ⟨e, f, g, h, rest, rfl⟩ := more
    rw [readText, unit]
    dsimp only
    rw [if_neg high, if_neg low]
  · rw [readText, unit]
    · dsimp only
      rw [if_neg alone]
    · rintro e f g h rest rfl
      exact more ⟨e, f, g, h, rest, rfl⟩

theorem readText_short (short : shortEscape? c = some d) :
    readText ('\\' :: c :: r) = spell d (readText r) := by
  have other : c ≠ 'u' := by
    rintro rfl
    cases short
  rw [readText, short]
  · intro a b c d e f g h rest same
    exact absurd same other
  · intro a b c d rest same
    exact absurd same other

theorem readText_plain (quote : c ≠ '"') (slash : c ≠ '\\') (visible : ¬ c.toNat < 32) :
    readText (c :: r) = spell c (readText r) := by
  rw [readText, if_neg visible]
  · exact quote
  · intro a b c d e f g h rest same
    exact absurd same slash
  · intro a b c d rest same
    exact absurd same slash
  · intro e rest same
    exact absurd same slash

theorem escape_cases (c : Char) : (∃ e, escape c = ['\\', e] ∧ shortEscape? e = some c) ∨
    (c.toNat < 32 ∧ escape c =
      ['\\', 'u', '0', '0', Nat.digitChar (c.toNat / 16), Nat.digitChar (c.toNat % 16)]) ∨
    (c ≠ '"' ∧ c ≠ '\\' ∧ ¬ c.toNat < 32 ∧ escape c = [c]) := by
  unfold escape
  split_ifs with quote slash back tab line feed carriage control
  · exact .inl ⟨_, rfl, by rw [quote]; rfl⟩
  · exact .inl ⟨_, rfl, by rw [slash]; rfl⟩
  · exact .inl ⟨_, rfl, by rw [back]; rfl⟩
  · exact .inl ⟨_, rfl, by rw [tab]; rfl⟩
  · exact .inl ⟨_, rfl, by rw [line]; rfl⟩
  · exact .inl ⟨_, rfl, by rw [feed]; rfl⟩
  · exact .inl ⟨_, rfl, by rw [carriage]; rfl⟩
  · exact .inr (.inl ⟨control, rfl⟩)
  · exact .inr (.inr ⟨quote, slash, control, rfl⟩)

theorem readText_escape_append (c : Char) (r : List Char) :
    readText (escape c ++ r) = spell c (readText r) := by
  obtain ⟨e, written, short⟩ | ⟨control, written⟩ | ⟨quote, slash, visible, written⟩ :=
    escape_cases c
  · rw [written]
    exact readText_short short
  · rw [written]
    have read := readText_unit (r := r) (hexUnit?_control control) (by omega)
    rwa [Char.ofNat_toNat] at read
  · rw [written]
    exact readText_plain quote slash visible

theorem readText_escape (cs r : List Char) :
    readText (cs.flatMap escape ++ '"' :: r) = some (some cs, r) := by
  induction cs with
  | nil => rfl
  | cons c cs ih =>
    rw [List.flatMap_cons, List.append_assoc, readText_escape_append, ih]
    rfl

theorem renderText_inj (same : renderText k ++ r = renderText l ++ s) : k = l ∧ r = s := by
  simp only [renderText, List.cons_append, List.append_assoc, List.nil_append, List.cons.injEq,
    true_and] at same
  have read := readText_escape k.toList r
  rw [same, readText_escape] at read
  simp only [Option.some.injEq, Prod.mk.injEq] at read
  exact ⟨String.toList_injective read.1.symm, read.2.symm⟩

theorem digits_inj (digits : ∀ c ∈ ds, c.isDigit = true) (digits' : ∀ c ∈ es, c.isDigit = true)
    (stops : Stops r) (stops' : Stops s) (same : ds ++ r = es ++ s) : ds = es ∧ r = s := by
  induction ds generalizing es with
  | nil =>
    cases es with
    | nil => exact ⟨rfl, same⟩
    | cons e es =>
      have digit := digits' e List.mem_cons_self
      rw [stops e _ same] at digit
      cases digit
  | cons d ds ih =>
    cases es with
    | nil =>
      have digit := digits d List.mem_cons_self
      rw [stops' d _ same.symm] at digit
      cases digit
    | cons e es =>
      obtain ⟨rfl, rest⟩ := List.cons.inj same
      obtain ⟨rfl, after⟩ := ih (List.forall_mem_cons.1 digits).2 (List.forall_mem_cons.1 digits').2 rest
      exact ⟨rfl, after⟩

theorem toDigits_inj (stops : Stops r) (stops' : Stops s)
    (same : Nat.toDigits 10 n ++ r = Nat.toDigits 10 m ++ s) : n = m ∧ r = s := by
  have digits : ∀ k, ∀ c ∈ Nat.toDigits 10 k, c.isDigit = true := fun k c mem =>
    Nat.isDigit_of_mem_toDigits (by decide) (by decide) mem
  obtain ⟨same, after⟩ := digits_inj (digits n) (digits m) stops stops' same
  refine ⟨?_, after⟩
  rw [← Nat.ofDigitChars_ten_toDigits (n := n), same, Nat.ofDigitChars_ten_toDigits]

theorem toDigits_ne_minus : Nat.toDigits 10 n ++ r ≠ '-' :: s := by
  cases digits : Nat.toDigits 10 n with
  | nil => exact absurd digits Nat.toDigits_ne_nil
  | cons d ds =>
    intro same
    have digit : d.isDigit = true :=
      Nat.isDigit_of_mem_toDigits (by decide) (by decide) (digits ▸ List.mem_cons_self)
    rw [(List.cons.inj same).1] at digit
    cases digit

theorem renderInt_inj {i j : Int} (stops : Stops r) (stops' : Stops s)
    (same : renderInt i ++ r = renderInt j ++ s) : i = j ∧ r = s := by
  cases i with
  | ofNat n =>
    cases j with
    | ofNat m =>
      obtain ⟨rfl, after⟩ := toDigits_inj stops stops' same
      exact ⟨rfl, after⟩
    | negSucc m => exact absurd same toDigits_ne_minus
  | negSucc n =>
    cases j with
    | ofNat m => exact absurd same.symm toDigits_ne_minus
    | negSucc m =>
      obtain ⟨positive, after⟩ := toDigits_inj stops stops' (List.cons.inj same).2
      obtain rfl := Nat.succ.inj positive
      exact ⟨rfl, after⟩

/-- The kind of value a text starts with, if it starts with one. -/
def leads (c : Char) : Option Nat :=
  if c = 'n' then some 0
  else if c = 't' ∨ c = 'f' then some 1
  else if c.isDigit ∨ c = '-' then some 2
  else if c = '"' then some 3
  else if c = '[' then some 4
  else if c = '{' then some 5
  else none

theorem render_leads (v : Json) : ∃ c rest, v.render = c :: rest ∧ leads c = some v.ctorIdx := by
  cases v with
  | null => exact ⟨'n', _, by rw [render]; rfl, by decide⟩
  | bool b =>
    cases b with
    | true => exact ⟨'t', _, by rw [render]; rfl, by decide⟩
    | false => exact ⟨'f', _, by rw [render]; rfl, by decide⟩
  | int n =>
    obtain ⟨c, rest, written, first⟩ : ∃ c rest, renderInt n = c :: rest ∧ (c.isDigit ∨ c = '-') := by
      cases n with
      | ofNat n =>
        cases digits : Nat.toDigits 10 n with
        | nil => exact absurd digits Nat.toDigits_ne_nil
        | cons c rest =>
          refine ⟨c, rest, digits, .inl ?_⟩
          exact Nat.isDigit_of_mem_toDigits (by decide) (by decide) (digits ▸ List.mem_cons_self)
      | negSucc n => exact ⟨'-', _, rfl, .inr rfl⟩
    refine ⟨c, rest, by rw [render, written], ?_⟩
    have letter : ∀ d : Char, d.isDigit = false → d ≠ '-' → c ≠ d := by
      rintro d other minus rfl
      obtain digit | sign := first
      · rw [other] at digit
        cases digit
      · exact minus sign
    unfold leads
    rw [if_neg (letter 'n' rfl (by decide)), if_neg, if_pos first]
    · rfl
    · exact not_or.2 ⟨letter 't' rfl (by decide), letter 'f' rfl (by decide)⟩
  | text s => exact ⟨'"', _, by rw [render]; rfl, rfl⟩
  | array items => exact ⟨'[', _, by rw [render], rfl⟩
  | object members => exact ⟨'\x7b', _, by rw [render], rfl⟩

theorem render_ne {close : Char} (closes : leads close = none) : v.render ++ r ≠ close :: s := by
  obtain ⟨c, rest, written, kind⟩ := render_leads v
  rw [written]
  intro same
  rw [(List.cons.inj same).1, closes] at kind
  cases kind

theorem ctorIdx_eq (same : v.render ++ r = w.render ++ s) : v.ctorIdx = w.ctorIdx := by
  obtain ⟨c, rest, written, kind⟩ := render_leads v
  obtain ⟨c', rest', written', kind'⟩ := render_leads w
  rw [written, written'] at same
  rw [(List.cons.inj same).1, kind'] at kind
  exact (Option.some.inj kind).symm

theorem renderText_ne_brace : renderText k ++ r ≠ '\x7d' :: s := by
  intro same
  exact absurd (List.cons.inj same).1 (by decide)

theorem renderItems_cons (v : Json) (rest : List Json) : renderItems (v :: rest) =
    v.render ++ if rest.isEmpty then [']'] else ',' :: renderItems rest := by
  cases rest with
  | nil => simp [renderItems]
  | cons w rest =>
    rw [renderItems]
    · rfl
    · nofun

theorem renderMembers_cons (k : String) (v : Json) (rest : List (String × Json)) :
    renderMembers ((k, v) :: rest) = renderText k ++ ':' ::
      (v.render ++ if rest.isEmpty then ['\x7d'] else ',' :: renderMembers rest) := by
  cases rest with
  | nil => simp [renderMembers]
  | cons entry rest =>
    rw [renderMembers]
    · rfl
    · nofun

theorem stops_after {close : Char} {more : List Char} {done : Bool} (closes : close.isDigit = false) :
    Stops ((if done then [close] else ',' :: more) ++ r) := by
  cases done with
  | true => exact stops_cons closes
  | false => exact stops_cons (by decide)

theorem after_inj {close : Char} {more more' : List Char} {done done' : Bool} (comma : close ≠ ',')
    (same : (if done then [close] else ',' :: more) ++ r =
      (if done' then [close] else ',' :: more') ++ s) :
    (done = true ∧ done' = true ∧ r = s) ∨
      (done = false ∧ done' = false ∧ more ++ r = more' ++ s) := by
  cases done with
  | true =>
    cases done' with
    | true => exact .inl ⟨rfl, rfl, (List.cons.inj same).2⟩
    | false => exact absurd (List.cons.inj same).1 comma
  | false =>
    cases done' with
    | true => exact absurd (List.cons.inj same).1.symm comma
    | false => exact .inr ⟨rfl, rfl, (List.cons.inj same).2⟩

mutual

theorem render_inj (v w : Json) (r s : List Char) (stops : Stops r) (stops' : Stops s)
    (same : v.render ++ r = w.render ++ s) : v = w ∧ r = s := by
  have kind := ctorIdx_eq same
  cases v with
  | null =>
    cases w with
    | null => exact ⟨rfl, List.append_cancel_left same⟩
    | _ => cases kind
  | bool b =>
    cases w with
    | bool b' =>
      cases b with
      | true =>
        cases b' with
        | true => exact ⟨rfl, List.append_cancel_left same⟩
        | false => cases same
      | false =>
        cases b' with
        | true => cases same
        | false => exact ⟨rfl, List.append_cancel_left same⟩
    | _ => cases kind
  | int n =>
    cases w with
    | int m =>
      rw [render, render] at same
      obtain ⟨rfl, after⟩ := renderInt_inj stops stops' same
      exact ⟨rfl, after⟩
    | _ => cases kind
  | text k =>
    cases w with
    | text l =>
      rw [render, render] at same
      obtain ⟨rfl, after⟩ := renderText_inj same
      exact ⟨rfl, after⟩
    | _ => cases kind
  | array items =>
    cases w with
    | array items' =>
      rw [render, render] at same
      obtain ⟨rfl, after⟩ := renderItems_inj items items' r s (List.cons.inj same).2
      exact ⟨rfl, after⟩
    | _ => cases kind
  | object members =>
    cases w with
    | object members' =>
      rw [render, render] at same
      obtain ⟨rfl, after⟩ := renderMembers_inj members members' r s (List.cons.inj same).2
      exact ⟨rfl, after⟩
    | _ => cases kind

theorem renderItems_inj (vs ws : List Json) (r s : List Char)
    (same : renderItems vs ++ r = renderItems ws ++ s) : vs = ws ∧ r = s := by
  match vs, ws with
  | [], [] =>
    rw [renderItems] at same
    exact ⟨rfl, List.append_cancel_left same⟩
  | [], w :: ws =>
    rw [renderItems, renderItems_cons, List.append_assoc] at same
    exact absurd same.symm (render_ne rfl)
  | v :: vs, [] =>
    rw [renderItems, renderItems_cons, List.append_assoc] at same
    exact absurd same (render_ne rfl)
  | v :: vs, w :: ws =>
    rw [renderItems_cons, renderItems_cons, List.append_assoc, List.append_assoc] at same
    -- an item is followed by a comma or the bracket, so a number in it ends where it was written to
    obtain ⟨rfl, after⟩ := render_inj v w _ _ (stops_after (by decide)) (stops_after (by decide)) same
    obtain ⟨last, last', after⟩ | ⟨-, -, after⟩ := after_inj (by decide) after
    · rw [List.isEmpty_iff.1 last, List.isEmpty_iff.1 last']
      exact ⟨rfl, after⟩
    · obtain ⟨rfl, end_eq⟩ := renderItems_inj vs ws r s after
      exact ⟨rfl, end_eq⟩

theorem renderMembers_inj (ms ns : List (String × Json)) (r s : List Char)
    (same : renderMembers ms ++ r = renderMembers ns ++ s) : ms = ns ∧ r = s := by
  match ms, ns with
  | [], [] =>
    rw [renderMembers] at same
    exact ⟨rfl, List.append_cancel_left same⟩
  | [], (l, w) :: ns =>
    rw [renderMembers, renderMembers_cons, List.append_assoc] at same
    exact absurd same.symm renderText_ne_brace
  | (k, v) :: ms, [] =>
    rw [renderMembers, renderMembers_cons, List.append_assoc] at same
    exact absurd same renderText_ne_brace
  | (k, v) :: ms, (l, w) :: ns =>
    rw [renderMembers_cons, renderMembers_cons, List.append_assoc, List.append_assoc] at same
    obtain ⟨rfl, value⟩ := renderText_inj same
    rw [List.cons_append, List.cons_append, List.append_assoc, List.append_assoc] at value
    replace value := (List.cons.inj value).2
    obtain ⟨rfl, after⟩ := render_inj v w _ _ (stops_after (by decide)) (stops_after (by decide)) value
    obtain ⟨last, last', after⟩ | ⟨-, -, after⟩ := after_inj (by decide) after
    · rw [List.isEmpty_iff.1 last, List.isEmpty_iff.1 last']
      exact ⟨rfl, after⟩
    · obtain ⟨rfl, end_eq⟩ := renderMembers_inj ms ns r s after
      exact ⟨rfl, end_eq⟩

end

/-- A value is told from its compact text. -/
theorem compact_injective (same : v.compact = w.compact) : v = w := by
  refine (render_inj v w [] [] stops_nil stops_nil ?_).1
  rw [String.ofList_injective same]

end Parley.Json
