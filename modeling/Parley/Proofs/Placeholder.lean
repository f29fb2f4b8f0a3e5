import Parley.Proofs.Encoding

namespace Parley

def NameChar (c : Char) : Prop :=
  ('A' ≤ c ∧ c ≤ 'Z') ∨ ('a' ≤ c ∧ c ≤ 'z') ∨ ('0' ≤ c ∧ c ≤ '9') ∨ c = '_' ∨ c = '-' ∨ c = '.'

theorem isNameChar_iff {c : Char} : isNameChar c = true ↔ NameChar c := by
  unfold isNameChar NameChar Char.isAlphanum Char.isAlpha Char.isUpper Char.isLower Char.isDigit
  simp only [Bool.or_eq_true, Bool.and_eq_true, decide_eq_true_eq, beq_iff_eq, Char.le_def,
    ge_iff_le, or_assoc]

theorem NameChar.bounds {c : Char} (h : NameChar c) : 32 < c.toNat ∧ c.toNat < 128 := by
  have between {lo hi : Char} (first : 32 < lo.toNat) (last : hi.toNat < 128)
      (h : lo ≤ c ∧ c ≤ hi) : 32 < c.toNat ∧ c.toNat < 128 :=
    ⟨Nat.lt_of_lt_of_le first (UInt32.le_iff_toNat_le.1 h.1),
      Nat.lt_of_le_of_lt (UInt32.le_iff_toNat_le.1 h.2) last⟩
  obtain h | h | h | rfl | rfl | rfl := h
  case inl | inr.inl | inr.inr.inl => exact between (by decide) (by decide) h
  all_goals decide

namespace Placeholder

variable {p : Placeholder} {position : Nat} {cs rest pre name after : List Char} {text : String}

def beginning (position : Nat) (name : List Char) : Placeholder :=
  ⟨.ofList name, position, position + utf8Length (Piece.slot name).chars⟩

def spelling (p : Placeholder) : String :=
  .ofList ('{' :: (p.name.toList ++ ['}']))

/-- That a stretch of a text's bytes spells a placeholder of that name. -/
structure SpeltIn (p : Placeholder) (text : String) : Prop where
  named : p.name.toList ≠ []
  chars : ∀ c ∈ p.name.toList, NameChar c
  spelt : ∃ before after, Text.utf8 text = before ++ (Text.utf8 p.spelling ++ after) ∧
    p.start = before.length ∧ p.stop = p.start + (Text.utf8 p.spelling).length

def Within (p : Placeholder) (position : Nat) (cs : List Char) : Prop :=
  ∃ pre name post, cs = pre ++ ((Piece.slot name).chars ++ post) ∧ name ≠ [] ∧
    (∀ c ∈ name, isNameChar c = true) ∧ p = beginning (position + utf8Length pre) name

theorem takeWhile_name (chars : ∀ c ∈ name, isNameChar c = true) :
    (name ++ '}' :: after).takeWhile isNameChar = name := by
  rw [List.takeWhile_append_of_pos chars, List.takeWhile_cons_of_neg (by decide), List.append_nil]

theorem dropWhile_name (chars : ∀ c ∈ name, isNameChar c = true) :
    (name ++ '}' :: after).dropWhile isNameChar = '}' :: after := by
  rw [List.dropWhile_append_of_pos chars, List.dropWhile_cons_of_neg (by decide)]

theorem slot?_eq_some_iff : slot? cs = some (name, after) ↔
    cs = name ++ '}' :: after ∧ name ≠ [] ∧ ∀ c ∈ name, isNameChar c = true := by
  constructor
  · intro found
    unfold slot? at found
    split at found
    next c name' after' taken dropped =>
      cases found
      have whole := List.takeWhile_append_dropWhile (p := isNameChar) (l := cs)
      rw [taken, dropped] at whole
      exact ⟨whole.symm, by simp, List.all_eq_true.1 (taken ▸ List.all_takeWhile)⟩
    next => cases found
  · rintro ⟨rfl, nonempty, chars⟩
    obtain ⟨c, rest, rfl⟩ := List.exists_cons_of_ne_nil nonempty
    simp only [slot?, takeWhile_name chars, dropWhile_name chars]

theorem exists_after_of_slot? {tail : List Char}
    (found : slot? (pre ++ '{' :: tail) = some (name, after)) :
    ∃ later, pre = name ++ '}' :: later ∧ after = later ++ '{' :: tail := by
  obtain ⟨whole, -, chars⟩ := slot?_eq_some_iff.1 found
  have opening : isNameChar '{' = false := by decide
  obtain ⟨inside, rfl, split⟩ | ⟨later, rfl, split⟩ := List.append_eq_append_iff.1 whole
  · cases inside with
    | nil => cases split
    | cons c inside =>
      obtain ⟨rfl, -⟩ := List.cons.inj split
      simp [chars '{' (by simp)] at opening
  · cases later with
    | nil => cases split
    | cons c later =>
      obtain ⟨rfl, rfl⟩ := List.cons.inj split
      exact ⟨later, rfl, rfl⟩

theorem not_within_nil : ¬ p.Within position [] := by
  rintro ⟨pre, name, post, whole, -⟩
  simp [Piece.chars] at whole

theorem within_cons_iff_of_plain {c : Char} (plain : c = '{' → slot? rest = none) :
    p.Within position (c :: rest) ↔ p.Within (position + c.utf8Size) rest := by
  constructor
  · rintro ⟨pre, name, post, whole, nonempty, chars, rfl⟩
    cases pre with
    | nil =>
      obtain ⟨rfl, rfl⟩ := List.cons.inj whole
      have found : slot? (name ++ '}' :: post) = some (name, post) :=
        slot?_eq_some_iff.2 ⟨rfl, nonempty, chars⟩
      simp [found] at plain
    | cons d pre =>
      obtain ⟨rfl, rfl⟩ := List.cons.inj whole
      exact ⟨pre, name, post, rfl, nonempty, chars, by simp [Nat.add_assoc]⟩
  · rintro ⟨pre, name, post, rfl, nonempty, chars, rfl⟩
    exact ⟨c :: pre, name, post, rfl, nonempty, chars, by simp [Nat.add_assoc]⟩

theorem within_cons_iff_of_slot (found : slot? rest = some (name, after)) :
    p.Within position ('{' :: rest) ↔ p = beginning position name ∨
      p.Within (position + utf8Length (Piece.slot name).chars) after := by
  obtain ⟨whole, nonempty, chars⟩ := slot?_eq_some_iff.1 found
  constructor
  · rintro ⟨pre, name', post, whole', nonempty', chars', rfl⟩
    cases pre with
    | nil =>
      obtain ⟨-, rfl⟩ := List.cons.inj whole'
      have same := slot?_eq_some_iff.2 ⟨List.append_assoc name' ['}'] post, nonempty', chars'⟩
      obtain ⟨rfl, -⟩ := Prod.mk.inj (Option.some.inj (found.symm.trans same))
      exact .inl rfl
    | cons d pre =>
      obtain ⟨rfl, rfl⟩ := List.cons.inj whole'
      obtain ⟨later, rfl, rfl⟩ := exists_after_of_slot? found
      exact .inr ⟨later, name', post, by simp [Piece.chars], nonempty', chars',
        by simp [Piece.chars, Nat.add_assoc]⟩
  · rintro (rfl | ⟨pre, name', post, rfl, nonempty', chars', rfl⟩)
    · exact ⟨[], name, after, by simp [Piece.chars, whole], nonempty, chars, rfl⟩
    · exact ⟨(Piece.slot name).chars ++ pre, name', post, by simp [Piece.chars, whole], nonempty',
        chars', by simp [Nat.add_assoc]⟩

theorem mem_ofPieces_iff : p ∈ ofPieces position (pieces cs) ↔ p.Within position cs := by
  fun_induction pieces cs generalizing position with
  | case1 => simp [ofPieces, not_within_nil]
  | case2 rest name after found ih =>
    rw [within_cons_iff_of_slot found, ← ih, ofPieces, List.mem_cons]
    rfl
  | case3 rest none ih => rw [within_cons_iff_of_plain fun _ => none, ← ih, ofPieces]
  | case4 c rest other ih =>
    rw [within_cons_iff_of_plain fun same => absurd same other, ← ih, ofPieces]

theorem spelling_beginning :
    (beginning position name).spelling = .ofList (Piece.slot name).chars := by
  simp [spelling, beginning, Piece.chars]

theorem within_iff_speltIn : p.Within 0 text.toList ↔ p.SpeltIn text := by
  constructor
  · rintro ⟨pre, name, post, whole, nonempty, chars, rfl⟩
    refine ⟨by simpa [beginning], fun c mem => ?_, Text.encode pre, Text.encode post, ?_⟩
    · exact isNameChar_iff.1 (chars c (by simpa [beginning] using mem))
    · rw [spelling_beginning, Text.utf8_eq_encode, Text.utf8_ofList, Text.length_encode,
        Text.length_encode, whole, Text.encode_append, Text.encode_append]
      exact ⟨rfl, by simp [beginning], rfl⟩
  · rintro ⟨named, chars, before, after, whole, start_eq, stop_eq⟩
    rw [spelling, Text.utf8_ofList, Text.length_encode] at stop_eq
    rw [spelling, Text.utf8_eq_encode, Text.utf8_ofList] at whole
    have ascii : ∀ c ∈ '{' :: (p.name.toList ++ ['}']), c.toNat < 128 := by
      intro c mem
      simp only [List.mem_cons, List.mem_append, List.not_mem_nil, or_false] at mem
      obtain rfl | mem | rfl := mem
      · decide
      · exact (chars c mem).bounds.2
      · decide
    obtain ⟨pre, post, parts, rfl, rfl⟩ := Text.exists_word_of_encode ascii (by simp) whole
    rw [Text.length_encode] at start_eq
    refine ⟨pre, p.name.toList, post, parts, named, fun c mem => isNameChar_iff.2 (chars c mem), ?_⟩
    obtain ⟨name, start, stop⟩ := p
    simp only at start_eq stop_eq
    simp [beginning, Piece.chars, start_eq, stop_eq]

theorem mem_scan_iff : p ∈ scan text ↔ p.SpeltIn text := by
  rw [scan, mem_ofPieces_iff, within_iff_speltIn]

theorem exists_mem_ofPieces_iff {ps : List Piece} {k : String} :
    (∃ p ∈ ofPieces position ps, p.name = k) ↔ ∃ name, .slot name ∈ ps ∧ .ofList name = k := by
  induction ps generalizing position with
  | nil => simp [ofPieces]
  | cons piece ps ih =>
    cases piece with
    | plain c => simpa [ofPieces] using ih
    | slot name => simp [ofPieces, ih, or_and_right, exists_or]

theorem le_start_of_mem_ofPieces {ps : List Piece} (mem : p ∈ ofPieces position ps) :
    position ≤ p.start := by
  induction ps generalizing position with
  | nil => cases mem
  | cons piece ps ih =>
    cases piece with
    | plain c => exact Nat.le_trans (Nat.le_add_right _ _) (ih mem)
    | slot name =>
      obtain rfl | mem := List.mem_cons.1 mem
      · exact Nat.le_refl _
      · exact Nat.le_trans (Nat.le_add_right _ _) (ih mem)

theorem pairwise_ofPieces (position : Nat) (ps : List Piece) :
    (ofPieces position ps).Pairwise fun p q => p.stop ≤ q.start := by
  induction ps generalizing position with
  | nil => exact .nil
  | cons piece ps ih =>
    cases piece with
    | plain c => exact ih _
    | slot name => exact .cons (fun q mem => le_start_of_mem_ofPieces mem) (ih _)

def cutAt? : Nat → List Char → Option (List Char × List Char)
  | 0, cs => some ([], cs)
  | _ + 1, [] => none
  | n + 1, c :: cs =>
    if c.utf8Size ≤ n + 1 then
      (cutAt? (n + 1 - c.utf8Size) cs).map fun (before, after) => (c :: before, after)
    else none

theorem cutAt?_append (pre after : List Char) :
    cutAt? (utf8Length pre) (pre ++ after) = some (pre, after) := by
  induction pre with
  | nil => simp [cutAt?]
  | cons c pre ih =>
    obtain ⟨n, size⟩ := Nat.exists_eq_succ_of_ne_zero (Nat.ne_of_gt c.utf8Size_pos)
    have length : utf8Length (c :: pre) = n + utf8Length pre + 1 := by
      rw [utf8Length_cons, size]; omega
    have rest : n + utf8Length pre + 1 - c.utf8Size = utf8Length pre := by omega
    rw [length, List.cons_append, cutAt?, if_pos (by omega), rest, ih]
    rfl

theorem eq_append_of_cutAt? {n : Nat} (cut : cutAt? n cs = some (pre, after)) :
    cs = pre ++ after ∧ n = utf8Length pre := by
  fun_induction cutAt? n cs generalizing pre with
  | case1 cs =>
    cases cut
    exact ⟨rfl, rfl⟩
  | case2 n => cases cut
  | case3 n c cs fits ih =>
    obtain ⟨⟨pre, _⟩, cut, same⟩ := Option.map_eq_some_iff.1 cut
    cases same
    obtain ⟨rfl, length⟩ := ih cut
    exact ⟨rfl, by rw [utf8Length_cons]; omega⟩
  | case4 n c cs long => cases cut

theorem cutAt?_eq_some_iff {n : Nat} : cutAt? n cs = some (pre, after) ↔
    cs = pre ++ after ∧ n = utf8Length pre :=
  ⟨eq_append_of_cutAt?, fun ⟨whole, length⟩ => whole ▸ length ▸ cutAt?_append pre after⟩

theorem cutAt?_add {n : Nat} (mid : List Char) (cut : cutAt? n cs = some (pre, mid ++ after)) :
    cutAt? (n + utf8Length mid) cs = some (pre ++ mid, after) := by
  obtain ⟨rfl, rfl⟩ := cutAt?_eq_some_iff.1 cut
  exact cutAt?_eq_some_iff.2 ⟨by simp, by simp⟩

theorem cutAt?_takeWhile (keep : Char → Bool) (cs : List Char) :
    cutAt? (utf8Length (cs.takeWhile keep)) cs = some (cs.takeWhile keep, cs.dropWhile keep) :=
  cutAt?_eq_some_iff.2 ⟨List.takeWhile_append_dropWhile.symm, rfl⟩

def scanFrom? (cs : List Char) (cursor : Nat) : Option (List Placeholder) :=
  match cutAt? cursor cs with
  | none => none
  | some (_, ahead) =>
    let start := cursor + utf8Length (ahead.takeWhile (· != '{'))
    if '{' ∈ ahead then
      match _h : cutAt? (start + 1) cs with
      | none => none
      | some (_, inner) =>
        let length := utf8Length (inner.takeWhile isNameChar)
        match cutAt? length inner with
        | none => none
        | some (name, closing) =>
          if 0 < length ∧ closing.head? = some '}' then
            let stop := start + 1 + length + 1
            (scanFrom? cs stop).map (⟨.ofList name, start, stop⟩ :: ·)
          else scanFrom? cs (start + 1)
    else some []
termination_by utf8Length cs - cursor
decreasing_by
  all_goals
    obtain ⟨whole, start_eq⟩ := cutAt?_eq_some_iff.1 _h
    rw [whole, utf8Length_append]
    omega

theorem ofPieces_plain_append (plain : List Char) (ps : List Piece) :
    ofPieces position (plain.map .plain ++ ps) = ofPieces (position + utf8Length plain) ps := by
  induction plain generalizing position with
  | nil => rfl
  | cons c plain ih => simp [ofPieces, ih, Nat.add_assoc]

theorem pieces_plain_append {plain : List Char} (none : '{' ∉ plain) :
    pieces (plain ++ rest) = plain.map .plain ++ pieces rest := by
  induction plain with
  | nil => rfl
  | cons c plain ih =>
    rw [List.mem_cons, not_or] at none
    rw [List.cons_append, pieces, if_neg (Ne.symm none.1), ih none.2, List.map_cons,
      List.cons_append]

theorem pieces_of_slot (found : slot? rest = some (name, after)) :
    pieces ('{' :: rest) = .slot name :: pieces after := by
  rw [pieces, if_pos rfl]
  split
  next name' after' found' =>
    cases found.symm.trans found'
    rfl
  next none => cases none.symm.trans found

theorem pieces_of_no_slot (none : slot? rest = none) :
    pieces ('{' :: rest) = .plain '{' :: pieces rest := by
  rw [pieces, if_pos rfl]
  split
  next found => cases none.symm.trans found
  next => rfl

theorem exists_cut_after_brace {cursor : Nat} {ahead : List Char}
    (cut : cutAt? cursor cs = some (pre, ahead)) (mem : '{' ∈ ahead) :
    let start := cursor + utf8Length (ahead.takeWhile (· != '{'))
    ∃ past inner, cutAt? (start + 1) cs = some (past, inner) ∧
      ofPieces cursor (pieces ahead) = ofPieces start (pieces ('{' :: inner)) := by
  obtain ⟨plain, inner, rfl, none⟩ := List.eq_append_cons_of_mem mem
  have taken : (plain ++ '{' :: inner).takeWhile (· != '{') = plain := by
    rw [List.takeWhile_append_of_pos, List.takeWhile_cons_of_neg (by simp), List.append_nil]
    rintro c mem
    simpa using fun same : c = '{' => none (same ▸ mem)
  rw [taken]
  refine ⟨pre ++ (plain ++ ['{']), inner, ?_, ?_⟩
  · have here : cutAt? cursor cs = some (pre, (plain ++ ['{']) ++ inner) := by simpa using cut
    have next := cutAt?_add _ here
    rwa [utf8Length_append, ← Nat.add_assoc] at next
  · rw [pieces_plain_append none, ofPieces_plain_append]

theorem slot?_of_closed (named : 0 < utf8Length (cs.takeWhile isNameChar))
    (closed : (cs.dropWhile isNameChar).head? = some '}') :
    ∃ after, cs = cs.takeWhile isNameChar ++ '}' :: after ∧
      slot? cs = some (cs.takeWhile isNameChar, after) := by
  obtain ⟨after, closing⟩ := List.head?_eq_some_iff.1 closed
  have whole := List.takeWhile_append_dropWhile (p := isNameChar) (l := cs)
  rw [closing] at whole
  have nonempty : cs.takeWhile isNameChar ≠ [] := fun empty => by simp [empty] at named
  exact ⟨after, whole.symm,
    slot?_eq_some_iff.2 ⟨whole.symm, nonempty, List.all_eq_true.1 List.all_takeWhile⟩⟩

theorem slot?_eq_none_of_unclosed (unclosed : ¬(0 < utf8Length (cs.takeWhile isNameChar) ∧
    (cs.dropWhile isNameChar).head? = some '}')) : slot? cs = none := by
  rw [Option.eq_none_iff_forall_ne_some]
  rintro ⟨name, after⟩ found
  obtain ⟨rfl, nonempty, chars⟩ := slot?_eq_some_iff.1 found
  rw [takeWhile_name chars, dropWhile_name chars] at unclosed
  exact unclosed ⟨Nat.pos_of_ne_zero (mt utf8Length_eq_zero_iff.1 nonempty), rfl⟩

theorem scanFrom?_eq_some {cursor : Nat} (cut : cutAt? cursor cs = some (pre, rest)) :
    scanFrom? cs cursor = some (ofPieces cursor (pieces rest)) := by
  fun_induction scanFrom? cs cursor generalizing pre rest
  case case1 nowhere => cases nowhere.symm.trans cut
  case case2 here _ mem nowhere =>
    obtain ⟨_, _, next, -⟩ := exists_cut_after_brace here mem
    cases nowhere.symm.trans next
  case case3 nowhere => cases nowhere.symm.trans (cutAt?_takeWhile _ _)
  case case4 cursor _ ahead here start mem past inner next length name closing ends closed stop
      ih =>
    cases here.symm.trans cut
    obtain ⟨_, _, next', same⟩ := exists_cut_after_brace here mem
    cases next.symm.trans next'
    cases ends.symm.trans (cutAt?_takeWhile isNameChar inner)
    obtain ⟨after, whole, found⟩ := slot?_of_closed closed.1 closed.2
    have beyond : cutAt? stop cs = some (past ++ (inner.takeWhile isNameChar ++ ['}']), after) := by
      have inside :
          cutAt? (start + 1) cs = some (past, (inner.takeWhile isNameChar ++ ['}']) ++ after) := by
        rw [next, List.append_assoc]
        exact congrArg (fun cs => some (past, cs)) whole
      have := cutAt?_add _ inside
      rwa [utf8Length_append, ← Nat.add_assoc] at this
    have stop_eq : stop = start + utf8Length (Piece.slot (inner.takeWhile isNameChar)).chars := by
      simp only [stop, length, Piece.chars, utf8Length_cons, utf8Length_append, Nat.add_assoc]
      rfl
    rw [ih beyond, same, pieces_of_slot found, ofPieces, stop_eq]
    rfl
  case case5 cursor _ ahead here start mem past inner next length name closing ends unclosed ih =>
    cases here.symm.trans cut
    obtain ⟨_, _, next', same⟩ := exists_cut_after_brace here mem
    cases next.symm.trans next'
    cases ends.symm.trans (cutAt?_takeWhile isNameChar inner)
    rw [ih next, same, pieces_of_no_slot (slot?_eq_none_of_unclosed unclosed), ofPieces]
    rfl
  case case6 cursor _ ahead here none =>
    cases here.symm.trans cut
    have plain : pieces (ahead ++ []) = ahead.map .plain ++ pieces [] := pieces_plain_append none
    rw [List.append_nil] at plain
    rw [plain, ofPieces_plain_append, pieces, ofPieces]

/-- The placeholders of a text are the stretches of its bytes that spell one: these and no others, in
order and apart from each other, whatever stands around them. A cursor that looks for them byte by
byte comes to the end of the text, and is never inside a character when it stops. -/
theorem scan_exact (text : String) :
    scanFrom? text.toList 0 = some (scan text) ∧
      (∀ p, p ∈ scan text ↔ p.SpeltIn text) ∧
      (scan text).Pairwise fun p q => p.stop ≤ q.start :=
  ⟨scanFrom?_eq_some (cutAt?_append [] text.toList), fun _ => mem_scan_iff, pairwise_ofPieces _ _⟩

end Placeholder

end Parley
