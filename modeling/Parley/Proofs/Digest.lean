import Mathlib.Data.List.Forall2
import Mathlib.Data.List.TakeWhile
import Parley.Digest.Wire
import Parley.Message.Basic
import Parley.Proofs.Directory
import Parley.Proofs.Encoding

namespace Parley

namespace Text.Hex

variable {c : Char} {cs : List Char} {s : String} {bytes : List UInt8} {n v : Nat} {vs : List Nat}

def IsDigit (c : Char) : Prop :=
  ('0' ≤ c ∧ c ≤ '9') ∨ ('a' ≤ c ∧ c ≤ 'f') ∨ ('A' ≤ c ∧ c ≤ 'F')

theorem isSome_value?_iff : (value? c).isSome = true ↔ IsDigit c := by
  have le_iff : ∀ a b : Char, a ≤ b ↔ a.toNat ≤ b.toNat := fun _ _ => Iff.rfl
  simp only [IsDigit, le_iff]
  change _ ↔ (48 ≤ c.toNat ∧ c.toNat ≤ 57) ∨ (97 ≤ c.toNat ∧ c.toNat ≤ 102) ∨
    (65 ≤ c.toNat ∧ c.toNat ≤ 70)
  unfold value?
  dsimp only
  split_ifs <;> simp [*]

theorem ascii_of_value? (digit : value? c = some v) : c.toNat < 128 := by
  unfold value? at digit
  dsimp only at digit
  split_ifs at digit <;> omega

theorem toLower_of_not_ascii (other : 128 ≤ c.toNat) : c.toLower = c := by
  have last : ¬ c.toNat ≤ 90 := by omega
  exact dif_neg fun letter => last letter.2

theorem value?_eq_some_iff : value? c = some v ↔ v < 16 ∧ c.toLower = Nat.digitChar v := by
  have ascii : ∀ n < 128, ∀ v < 16,
      (value? (Char.ofNat n) = some v ↔ (Char.ofNat n).toLower = Nat.digitChar v) := by
    decide +kernel
  have bounded : ∀ n < 128, ∀ v ∈ value? (Char.ofNat n), v < 16 := by decide +kernel
  have written : ∀ v < 16, (Nat.digitChar v).toNat < 128 := by decide
  by_cases small : c.toNat < 128
  · specialize ascii c.toNat small
    specialize bounded c.toNat small
    rw [Char.ofNat_toNat] at ascii bounded
    exact ⟨fun digit => ⟨bounded v digit, (ascii v (bounded v digit)).1 digit⟩,
      fun ⟨bound, lower⟩ => (ascii v bound).2 lower⟩
  · refine ⟨fun digit => absurd (ascii_of_value? digit) small, fun ⟨bound, lower⟩ => ?_⟩
    rw [toLower_of_not_ascii (Nat.le_of_not_lt small)] at lower
    exact absurd (lower ▸ written v bound) small

theorem values_eq_ok_iff :
    values n cs = .ok vs ↔ List.Forall₂ (fun c v => value? c = some v) cs vs := by
  induction cs generalizing n vs with
  | nil => cases vs <;> simp [values]
  | cons c cs ih =>
    unfold values
    cases digit : value? c with
    | none => cases vs <;> simp [digit]
    | some w =>
      cases read : values (n + 1) cs with
      | error e => cases vs <;> simp [Except.map, digit, ← ih (n := n + 1), read]
      | ok ws => cases vs <;> simp [Except.map, digit, ← ih (n := n + 1), read]

theorem forall₂_value?_iff : List.Forall₂ (fun c v => value? c = some v) cs vs ↔
    (∀ v ∈ vs, v < 16) ∧ cs.map Char.toLower = vs.map Nat.digitChar := by
  induction cs generalizing vs with
  | nil => cases vs <;> simp
  | cons c cs ih =>
    cases vs with
    | nil => simp
    | cons v vs =>
      rw [List.forall₂_cons, ih, value?_eq_some_iff, List.forall_mem_cons, List.map_cons,
        List.map_cons, List.cons.injEq]
      tauto

def nibbles (bytes : List UInt8) : List Nat :=
  bytes.flatMap fun b => [b.toNat / 16, b.toNat % 16]

theorem encode_eq_map (bytes : List UInt8) : encode bytes = (nibbles bytes).map Nat.digitChar := by
  rw [encode, nibbles, List.map_flatMap]
  rfl

theorem lt_of_mem_nibbles (mem : v ∈ nibbles bytes) : v < 16 := by
  obtain ⟨b, -, mem⟩ := List.mem_flatMap.1 mem
  have := b.toNat_lt
  simp only [List.mem_cons, List.not_mem_nil, or_false] at mem
  omega

theorem of_mem_encode (mem : c ∈ encode bytes) : c.toLower = c ∧ c ≠ ':' := by
  have digits : ∀ v < 16, (Nat.digitChar v).toLower = Nat.digitChar v ∧ Nat.digitChar v ≠ ':' := by
    decide
  rw [encode_eq_map] at mem
  obtain ⟨v, digit, rfl⟩ := List.mem_map.1 mem
  exact digits v (lt_of_mem_nibbles digit)

theorem map_toLower_encode (bytes : List UInt8) : (encode bytes).map Char.toLower = encode bytes :=
  (List.map_congr_left fun _ mem => (of_mem_encode mem).1).trans (List.map_id _)

theorem join_nibbles (bytes : List UInt8) : join (nibbles bytes) = bytes := by
  induction bytes with
  | nil => rfl
  | cons b bytes ih =>
    have halves : 16 * (b.toNat / 16) + b.toNat % 16 = b.toNat := Nat.div_add_mod _ _
    change UInt8.ofNat (16 * (b.toNat / 16) + b.toNat % 16) :: join (nibbles bytes) = b :: bytes
    rw [halves, UInt8.ofNat_toNat, ih]

theorem nibbles_join (even : vs.length % 2 = 0) (bound : ∀ v ∈ vs, v < 16) :
    nibbles (join vs) = vs := by
  fun_induction join vs with
  | case1 high low rest ih =>
    obtain ⟨high_lt, bound⟩ := List.forall_mem_cons.1 bound
    obtain ⟨low_lt, bound⟩ := List.forall_mem_cons.1 bound
    have byte : (UInt8.ofNat (16 * high + low)).toNat = 16 * high + low :=
      UInt8.toNat_ofNat_of_lt' (show 16 * high + low < 256 by omega)
    have rest_eq : nibbles (join rest) = rest :=
      ih (by rw [List.length_cons, List.length_cons] at even; omega) bound
    have high_eq : (16 * high + low) / 16 = high := by omega
    have low_eq : (16 * high + low) % 16 = low := by omega
    rw [nibbles, List.flatMap_cons, ← nibbles, rest_eq, byte, high_eq, low_eq]
    rfl
  | case2 vs short =>
    match vs with
    | [] => rfl
    | [v] => cases even
    | v :: w :: vs => exact absurd rfl (short v w vs)

theorem utf8Length_of_ascii (ascii : ∀ c ∈ cs, c.toNat < 128) : utf8Length cs = cs.length := by
  induction cs with
  | nil => rfl
  | cons c cs ih =>
    obtain ⟨first, others⟩ := List.forall_mem_cons.1 ascii
    have single : c.utf8Size = 1 :=
      Char.utf8Size_eq_one_iff.2 (UInt32.le_iff_toNat_le.2 (Nat.le_of_lt_succ first))
    rw [utf8Length_cons, single, ih others, List.length_cons, Nat.add_comm]

theorem utf8ByteSize_eq (digits : List.Forall₂ (fun c v => value? c = some v) s.toList vs) :
    s.utf8ByteSize = vs.length := by
  have ascii : ∀ c ∈ s.toList, c.toNat < 128 := fun c mem => by
    obtain ⟨i, inside, rfl⟩ := List.getElem_of_mem mem
    exact ascii_of_value? (digits.get inside (digits.length_eq ▸ inside))
  have size_eq : s.utf8ByteSize = (utf8 s).length := rfl
  rw [size_eq, utf8_eq_encode, Text.length_encode, utf8Length_of_ascii ascii, digits.length_eq]

theorem decode_eq_ok_iff : decode s = .ok bytes ↔ s.toList.map Char.toLower = encode bytes := by
  unfold decode
  constructor
  · intro read
    split at read
    · cases read
    next even =>
      split at read
      · cases read
      next vs found =>
        cases read
        have digits := values_eq_ok_iff.1 found
        obtain ⟨bound, lower⟩ := forall₂_value?_iff.1 digits
        rw [utf8ByteSize_eq digits] at even
        rw [lower, encode_eq_map, nibbles_join (by omega) bound]
  · intro lower
    have digits : List.Forall₂ (fun c v => value? c = some v) s.toList (nibbles bytes) :=
      forall₂_value?_iff.2 ⟨fun _ => lt_of_mem_nibbles, lower.trans (encode_eq_map bytes)⟩
    have length_eq : (nibbles bytes).length = 2 * bytes.length := by
      rw [← length_encode, encode_eq_map, List.length_map]
    rw [if_neg (by rw [utf8ByteSize_eq digits]; omega), values_eq_ok_iff.2 digits]
    exact congrArg Except.ok (join_nibbles bytes)

theorem exists_encode_iff :
    (∃ bytes : List UInt8, bytes.length = n ∧ cs.map Char.toLower = encode bytes) ↔
      cs.length = 2 * n ∧ ∀ c ∈ cs, IsDigit c := by
  constructor
  · rintro ⟨bytes, rfl, lower⟩
    have digits : List.Forall₂ (fun c v => value? c = some v) cs (nibbles bytes) :=
      forall₂_value?_iff.2 ⟨fun _ => lt_of_mem_nibbles, lower.trans (encode_eq_map bytes)⟩
    refine ⟨by rw [← length_encode, ← lower, List.length_map], fun c mem => ?_⟩
    obtain ⟨i, inside, rfl⟩ := List.getElem_of_mem mem
    have digit := digits.get inside (digits.length_eq ▸ inside)
    exact isSome_value?_iff.1 (Option.isSome_iff_exists.2 ⟨_, digit⟩)
  · rintro ⟨length_eq, all⟩
    have digits : List.Forall₂ (fun c v => value? c = some v) cs (cs.map fun c => (value? c).getD 0) := by
      rw [List.forall₂_map_right_iff, List.forall₂_same]
      intro c mem
      obtain ⟨v, digit⟩ := Option.isSome_iff_exists.1 (isSome_value?_iff.2 (all c mem))
      rw [digit, Option.getD_some]
    generalize cs.map (fun c => (value? c).getD 0) = vs at digits
    obtain ⟨bound, lower⟩ := forall₂_value?_iff.1 digits
    have spelt : cs.map Char.toLower = encode (join vs) := by
      rw [lower, encode_eq_map, nibbles_join (by rw [← digits.length_eq]; omega) bound]
    have twice := congrArg List.length spelt
    rw [List.length_map, length_encode] at twice
    exact ⟨join vs, by omega, spelt⟩

end Text.Hex

namespace HashAlgorithm

variable {a b : HashAlgorithm} {s t : String}

theorem sameLetters_iff :
    sameLetters s t = true ↔ s.toList.map Char.toLower = t.toList.map Char.toLower :=
  beq_iff_eq

theorem eq_of_sameLetters (same : sameLetters a.name s = true) (same' : sameLetters b.name s = true) :
    a = b := by
  have names : sameLetters a.name b.name = true :=
    sameLetters_iff.2 ((sameLetters_iff.1 same).trans (sameLetters_iff.1 same').symm)
  revert names
  cases a <;> cases b <;> decide

theorem ofName_eq_ok_iff : ofName s = .ok a ↔ sameLetters a.name s = true := by
  have found : ofName? s = some a ↔ a ∈ all ∧ sameLetters a.name s = true :=
    find?_eq_some_iff_of_unique fun _ _ _ _ => eq_of_sameLetters
  rw [and_iff_right (mem_all a)] at found
  rw [← found, ofName]
  cases ofName? s <;> simp

theorem colon_not_mem_name (a : HashAlgorithm) : ':' ∉ a.name.toList.map Char.toLower := by
  cases a <;> decide

end HashAlgorithm

theorem toLower_eq_colon_iff {c : Char} : c.toLower = ':' ↔ c = ':' := by
  have ascii : ∀ n < 128, (Char.ofNat n).toLower = ':' ↔ Char.ofNat n = ':' := by decide
  by_cases small : c.toNat < 128
  · have := ascii c.toNat small
    rwa [Char.ofNat_toNat] at this
  · rw [Text.Hex.toLower_of_not_ascii (Nat.le_of_not_lt small)]

namespace Digest

variable {s : String} {h : Digest} {a : HashAlgorithm} {name digits : List Char}

theorem toList_text (h : Digest) : h.text.toList = h.algorithm.name.toList ++ ':' :: Text.Hex.encode h.sum := by
  simp [text, hex]

theorem ofSum_eq_ok_iff {sum : List UInt8} : ofSum a sum = .ok h ↔ a = h.algorithm ∧ sum = h.sum := by
  constructor
  · intro made
    unfold ofSum at made
    split at made
    · cases made
      exact ⟨rfl, rfl⟩
    · cases made
  · rintro ⟨rfl, rfl⟩
    exact ofSum_sum h

theorem ofText_of_parts (parts : s.toList = name ++ ':' :: digits) (first : ':' ∉ name) :
    ofText s = .ok h ↔ HashAlgorithm.ofName (.ofList name) = .ok h.algorithm ∧
      Text.Hex.decode (.ofList digits) = .ok h.sum := by
  have others : ∀ c ∈ name, (c != ':') = true := fun c mem =>
    bne_iff_ne.2 fun same => first (same ▸ mem)
  have before : s.toList.takeWhile (· != ':') = name := by
    rw [parts, List.takeWhile_append_of_pos others]
    simp
  have after : s.toList.dropWhile (· != ':') = ':' :: digits := by
    rw [parts, List.dropWhile_append_of_pos others]
    simp
  unfold ofText
  dsimp only
  rw [before, after]
  dsimp only
  rw [bind_eq_ok_iff]
  constructor
  · rintro ⟨a, named, read⟩
    split at read
    · cases read
    next sum decoded =>
      obtain ⟨rfl, rfl⟩ := ofSum_eq_ok_iff.1 read
      exact ⟨named, decoded⟩
  · rintro ⟨named, decoded⟩
    refine ⟨h.algorithm, named, ?_⟩
    rw [decoded]
    exact ofSum_sum h

theorem ofText_ne_ok (none : ':' ∉ s.toList) : ofText s ≠ .ok h := by
  have nothing : s.toList.dropWhile (· != ':') = [] :=
    List.dropWhile_eq_nil_iff.2 fun c mem => bne_iff_ne.2 fun same => none (same ▸ mem)
  unfold ofText
  dsimp only
  rw [nothing]
  nofun

theorem ofText_eq_ok_iff : ofText s = .ok h ↔ HashAlgorithm.sameLetters h.text s = true := by
  rw [HashAlgorithm.sameLetters_iff, toList_text, List.map_append, List.map_cons]
  by_cases colon : ':' ∈ s.toList
  · obtain ⟨name, digits, parts, first⟩ := List.eq_append_cons_of_mem colon
    rw [ofText_of_parts parts first, HashAlgorithm.ofName_eq_ok_iff, HashAlgorithm.sameLetters_iff,
      Text.Hex.decode_eq_ok_iff, String.toList_ofList, String.toList_ofList, parts, List.map_append,
      List.map_cons, Text.Hex.map_toLower_encode, List.append_cons_inj_of_notMem]
    · simp [eq_comm]
    · exact h.algorithm.colon_not_mem_name
    · exact fun mem => (Text.Hex.of_mem_encode mem).2 rfl
  · refine ⟨fun read => absurd read (ofText_ne_ok colon), fun same => ?_⟩
    have mem : ':' ∈ s.toList.map Char.toLower := by
      rw [← same]
      exact List.mem_append_right _ List.mem_cons_self
    obtain ⟨c, mem, lower⟩ := List.mem_map.1 mem
    rw [toLower_eq_colon_iff.1 lower] at mem
    exact absurd mem colon

/-- That a text has the shape of a digest's text form: the name of an algorithm in any letter case, a
colon and as many hexadecimal digits as that algorithm's digests have. -/
def Spelt (s : String) : Prop :=
  ∃ (a : HashAlgorithm) (name digits : String), s = name ++ ":" ++ digits ∧
    HashAlgorithm.sameLetters a.name name = true ∧ digits.length = 2 * a.size ∧
      ∀ c ∈ digits.toList, Text.Hex.IsDigit c

theorem exists_ofText_iff : (∃ h, ofText s = .ok h) ↔ Spelt s := by
  simp only [ofText_eq_ok_iff, HashAlgorithm.sameLetters_iff, toList_text, List.map_append, List.map_cons]
  constructor
  · rintro ⟨h, same⟩
    obtain ⟨name, rest, parts, name_eq, rest_eq⟩ := List.map_eq_append_iff.1 same.symm
    obtain ⟨colon, digits, rfl, colon_eq, digits_eq⟩ := List.map_eq_cons_iff.1 rest_eq
    obtain rfl := toLower_eq_colon_iff.1 colon_eq
    rw [Text.Hex.map_toLower_encode] at digits_eq
    obtain ⟨length_eq, all⟩ := Text.Hex.exists_encode_iff.1 ⟨h.sum, h.length_sum, digits_eq⟩
    refine ⟨h.algorithm, .ofList name, .ofList digits, ?_, ?_, by simpa using length_eq, by simpa using all⟩
    · rw [← String.toList_inj, parts]
      simp
    · rw [HashAlgorithm.sameLetters_iff, String.toList_ofList, name_eq]
  · rintro ⟨a, name, digits, rfl, named, length_eq, all⟩
    obtain ⟨sum, length_sum, digits_eq⟩ := Text.Hex.exists_encode_iff.2 ⟨length_eq, all⟩
    refine ⟨⟨a, sum, length_sum⟩, ?_⟩
    rw [HashAlgorithm.sameLetters_iff] at named
    simp [named, digits_eq, Text.Hex.map_toLower_encode]

instance : DecidablePred Spelt := fun s =>
  decidable_of_iff ((ofText? s).isSome = true) <| by
    rw [← exists_ofText_iff, ofText?]
    cases ofText s <;> simp [Except.toOption]

theorem ofText?_eq_some_iff : ofText? s = some h ↔ ofText s = .ok h := by
  rw [ofText?]
  cases ofText s <;> simp [Except.toOption]

theorem forall₂_filterMap_ofText? (texts : List String) :
    List.Forall₂ (fun s h => HashAlgorithm.sameLetters (text h) s = true) (texts.filter Spelt)
      (texts.filterMap ofText?) := by
  induction texts with
  | nil => exact .nil
  | cons s texts ih =>
    cases read : ofText? s with
    | none =>
      have other : ¬ Spelt s := fun spelt => by
        obtain ⟨h, read'⟩ := exists_ofText_iff.2 spelt
        rw [ofText?_eq_some_iff.2 read'] at read
        cases read
      rwa [List.filterMap_cons_none read, List.filter_cons_of_neg (by simpa using other)]
    | some h =>
      have read' := ofText?_eq_some_iff.1 read
      have spelt := exists_ofText_iff.1 ⟨h, read'⟩
      rw [List.filterMap_cons_some read, List.filter_cons_of_pos (by simpa using spelt)]
      exact .cons (ofText_eq_ok_iff.1 read') ih

end Digest

open Json

theorem Json.record_eq_ok_iff {σ β : Type} {fields : List (RecordField σ)} {start : σ}
    {build : σ → Decoded β} {v : Reading} {b : β} : record fields start build v = .ok b ↔
      (∃ members, v = .object members true ∧
        ∃ s, putMembers fields members start = .ok s ∧ build s = .ok b) ∨
      (∃ items, v = .array items true ∧ ∃ s, putItems fields items start = .ok s ∧ build s = .ok b) ∨
      (v = .hollow ∧ build start = .ok b) := by
  cases v with
  | object members closed =>
    rw [record, bind_eq_ok_iff]
    cases closed <;> simp
  | array items closed =>
    rw [record, bind_eq_ok_iff]
    cases closed with
    | false => simp
    | true =>
      simp only [if_true, reduceCtorEq, false_and, exists_false, false_or, or_false,
        Reading.array.injEq, and_true, exists_eq_left']
      refine exists_congr fun s => and_congr_right fun _ => ?_
      split <;> simp [*]
  | hollow => simp [record]
  | _ => simp [record]

namespace Digest

variable {h : Digest} {a : HashAlgorithm}

def valuesOf (name : String) (members : List (Option String × Reading)) : List Reading :=
  members.filterMap fun (key, v) => if key = some name then some v else none

inductive Record : Reading → String → String → Prop
  | object {members : List (Option String × Reading)} {name sum : String}
      (readable : ∀ entry ∈ members, entry.1 ≠ none)
      (name_eq : valuesOf "algorithm" members = [.text name])
      (sum_eq : valuesOf "sum" members = [.text sum]) : Record (.object members true) name sum
  | array {name sum : String} : Record (.array [.text name, .text sum] true) name sum

theorem put_eq_ok_iff {α σ β : Type} {x : Option α} {read : Decoded α} {twice : DecodeError}
    {set : α → σ} {rest : σ → Decoded β} {b : β} :
    (if x.isSome then .error twice else read.map set >>= rest) = .ok b ↔
      x = none ∧ ∃ a, read = .ok a ∧ rest (set a) = .ok b := by
  cases x <;> cases read <;> simp [bind, Except.bind, Except.map]

theorem putMembers_eq_ok_iff {members : List (Option String × Reading)} {slots : Slots}
    {a : HashAlgorithm} {sum : List UInt8} :
    putMembers fields members slots = .ok ⟨some a, some sum⟩ ↔ (∀ entry ∈ members, entry.1 ≠ none) ∧
      slots.algorithm.toList.map .ok ++ (valuesOf "algorithm" members).map HashAlgorithm.decode = [.ok a] ∧
      slots.sum.toList.map .ok ++ (valuesOf "sum" members).map decodeBytes = [.ok sum] := by
  induction members generalizing slots with
  | nil =>
    obtain ⟨a', sum'⟩ := slots
    cases a' <;> cases sum' <;> simp [putMembers, valuesOf]
  | cons entry members ih =>
    obtain ⟨key, v⟩ := entry
    obtain ⟨a', sum'⟩ := slots
    by_cases first : key = some "algorithm"
    · subst first
      rw [putMembers]
      change (if a'.isSome then _ else (HashAlgorithm.decode v).map _ >>= _) = _ ↔ _
      rw [put_eq_ok_iff]
      simp only [ih]
      cases a' <;> simp [valuesOf, and_assoc, and_left_comm]
    · by_cases second : key = some "sum"
      · subst second
        rw [putMembers]
        change (if sum'.isSome then _ else (decodeBytes v).map _ >>= _) = _ ↔ _
        rw [put_eq_ok_iff]
        simp only [ih]
        cases sum' <;> simp [valuesOf, and_left_comm]
      · cases key with
        | none => simp [putMembers]
        | some key =>
          have other : fields.find? (·.name == key) = none := by
            simp only [fields, RecordField.slot, List.find?_cons, List.find?_nil]
            rw [beq_eq_false_iff_ne.2 fun same => first (congrArg some same.symm),
              beq_eq_false_iff_ne.2 fun same => second (congrArg some same.symm)]
          rw [putMembers, other]
          simpa [valuesOf, first, second] using @ih ⟨a', sum'⟩

theorem decodeAlgorithm_eq_ok_iff {v : Reading} : HashAlgorithm.decode v = .ok a ↔
    ∃ name, v = .text name ∧ HashAlgorithm.sameLetters a.name name = true := by
  cases v with
  | text name =>
    have read : HashAlgorithm.decode (.text name) = (HashAlgorithm.ofName name).mapError .refused := rfl
    rw [read]
    simp only [← HashAlgorithm.ofName_eq_ok_iff]
    cases found : HashAlgorithm.ofName name <;> simp [Except.mapError, found]
  | _ => exact ⟨nofun, nofun⟩

theorem decodeBytes_eq_ok_iff {v : Reading} {bytes : List UInt8} :
    decodeBytes v = .ok bytes ↔ ∃ t, v = .text t ∧ Text.Base64.decode t.toList = some bytes := by
  cases v with
  | text t =>
    cases found : Text.Base64.decode t.toList <;>
      simp [decodeBytes, decodeText, found, bind, Except.bind]
  | _ => simp [decodeBytes, decodeText, bind, Except.bind]

theorem putItems_eq_ok_iff {items : List Reading} {sum : List UInt8} :
    putItems fields items ⟨none, none⟩ = .ok ⟨some a, some sum⟩ ↔
      ∃ v w, items = [v, w] ∧ HashAlgorithm.decode v = .ok a ∧ decodeBytes w = .ok sum := by
  match items with
  | [] => simp [fields, putItems]
  | [v] =>
    cases first : HashAlgorithm.decode v <;>
      simp [fields, putItems, RecordField.slot, first, bind, Except.bind, Except.map]
  | v :: w :: rest =>
    cases first : HashAlgorithm.decode v with
    | error e => simp [fields, putItems, RecordField.slot, first, bind, Except.bind, Except.map]
    | ok a' =>
      cases second : decodeBytes w with
      | error e =>
        simp [fields, putItems, RecordField.slot, first, second, bind, Except.bind, Except.map]
      | ok sum' =>
        cases rest <;>
          simp [fields, putItems, RecordField.slot, first, second, bind, Except.bind, Except.map]

theorem required_eq_ok_iff {α : Type} {name : String} {o : Option α} {x : α} :
    required name o = .ok x ↔ o = some x := by
  cases o <;> simp [required]

theorem decode_eq_ok_iff {v : Reading} : decode v = .ok h ↔ ∃ name sum, Record v name sum ∧
    HashAlgorithm.sameLetters h.algorithm.name name = true ∧
      Text.Base64.decode sum.toList = some h.sum := by
  have built : ∀ (slots : Slots) (parts : HashAlgorithm × List UInt8),
      (do
        let a ← required "algorithm" slots.algorithm
        let sum ← required "sum" slots.sum
        .ok (a, sum) : Decoded (HashAlgorithm × List UInt8)) = .ok parts ↔
          slots = ⟨some parts.1, some parts.2⟩ := by
    rintro ⟨a, sum⟩ ⟨a', sum'⟩
    simp [bind_eq_ok_iff, required_eq_ok_iff]
  have fits : ∀ parts : HashAlgorithm × List UInt8,
      (ofSum parts.1 parts.2).mapError DecodeError.refused = .ok h ↔ parts = (h.algorithm, h.sum) := by
    rintro ⟨a, sum⟩
    rw [Prod.mk.injEq, ← ofSum_eq_ok_iff]
    cases ofSum a sum <;> simp [Except.mapError]
  rw [decode, bind_eq_ok_iff]
  simp only [fits, exists_eq_right, record_eq_ok_iff, built, putMembers_eq_ok_iff, putItems_eq_ok_iff,
    Option.toList_none, List.map_nil, List.nil_append, List.map_eq_singleton_iff]
  constructor
  · rintro (⟨members, rfl, readable, ⟨v, name_eq, named⟩, w, sum_eq, summed⟩ |
      ⟨items, rfl, v, w, rfl, named, summed⟩ | ⟨-, nothing⟩)
    · obtain ⟨name, rfl, same⟩ := decodeAlgorithm_eq_ok_iff.1 named
      obtain ⟨sum, rfl, bytes⟩ := decodeBytes_eq_ok_iff.1 summed
      exact ⟨name, sum, .object readable name_eq sum_eq, same, bytes⟩
    · obtain ⟨name, rfl, same⟩ := decodeAlgorithm_eq_ok_iff.1 named
      obtain ⟨sum, rfl, bytes⟩ := decodeBytes_eq_ok_iff.1 summed
      exact ⟨name, sum, .array, same, bytes⟩
    · cases nothing
  · rintro ⟨name, sum, recorded, named, summed⟩
    replace named := decodeAlgorithm_eq_ok_iff.2 ⟨name, rfl, named⟩
    replace summed := decodeBytes_eq_ok_iff.2 ⟨sum, rfl, summed⟩
    cases recorded with
    | object readable name_eq sum_eq =>
      exact .inl ⟨_, rfl, readable, ⟨_, name_eq, named⟩, _, sum_eq, summed⟩
    | array => exact .inr (.inl ⟨_, rfl, _, _, rfl, named, summed⟩)

/-- Reading a digest's text form undoes writing it, and reads nothing else but that in other letter
case. So the references of an offer are exactly its arguments of that shape, in order, and a digest
in JSON has the length of its algorithm. -/
theorem text_exact :
    (∀ h : Digest, ofText h.text = .ok h) ∧
    (∀ s, (∃ h, ofText s = .ok h) ↔ Spelt s) ∧
    (∀ s h, ofText s = .ok h ↔ HashAlgorithm.sameLetters h.text s = true) ∧
    (∀ o : Offer, List.Forall₂ (fun s h => HashAlgorithm.sameLetters (text h) s = true)
      ((o.contracts.flatMap fun c => c.arguments.values).filter Spelt)
      (Message.offer o).references) ∧
    (∀ v a bytes, (∃ h : Digest, decode v = .ok h ∧ h.algorithm = a ∧ h.sum = bytes) ↔
      bytes.length = a.size ∧ ∃ name sum, Record v name sum ∧
        HashAlgorithm.sameLetters a.name name = true ∧
          Text.Base64.decode sum.toList = some bytes) := by
  refine ⟨fun h => ofText_eq_ok_iff.2 (by simp [HashAlgorithm.sameLetters]), fun s => exists_ofText_iff,
    fun s h => ofText_eq_ok_iff, fun o => ?_, fun v a bytes => ?_⟩
  · have references_eq : (Message.offer o).references =
        (o.contracts.flatMap fun c => c.arguments.values).filterMap ofText? :=
      List.filterMap_flatMap.symm
    rw [references_eq]
    exact forall₂_filterMap_ofText? _
  · simp only [decode_eq_ok_iff]
    constructor
    · rintro ⟨h, ⟨name, sum, recorded⟩, rfl, rfl⟩
      exact ⟨h.length_sum, name, sum, recorded⟩
    · rintro ⟨length_sum, name, sum, recorded⟩
      exact ⟨⟨a, bytes, length_sum⟩, ⟨name, sum, recorded⟩, rfl, rfl⟩

end Digest

end Parley
