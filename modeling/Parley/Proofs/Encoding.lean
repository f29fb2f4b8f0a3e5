import Mathlib.Tactic.SplitIfs
import Parley.Template.Placeholder
import Parley.Text.Utf8

namespace Parley

section Length

@[simp] theorem utf8Length_nil : utf8Length [] = 0 :=
  rfl

theorem foldl_utf8Size (n : Nat) (cs : List Char) :
    cs.foldl (fun n c => n + c.utf8Size) n = n + utf8Length cs := by
  induction cs generalizing n with
  | nil => rfl
  | cons c cs ih =>
    rw [utf8Length, List.foldl_cons, List.foldl_cons, ih, ih, Nat.zero_add, Nat.add_assoc]

@[simp] theorem utf8Length_cons (c : Char) (cs : List Char) :
    utf8Length (c :: cs) = c.utf8Size + utf8Length cs := by
  rw [utf8Length, List.foldl_cons, foldl_utf8Size, Nat.zero_add]

@[simp] theorem utf8Length_append (cs ds : List Char) :
    utf8Length (cs ++ ds) = utf8Length cs + utf8Length ds := by
  rw [utf8Length, List.foldl_append, foldl_utf8Size]
  rfl

theorem utf8Length_eq_zero_iff {cs : List Char} : utf8Length cs = 0 ↔ cs = [] := by
  cases cs with
  | nil => simp
  | cons c cs =>
    have := c.utf8Size_pos
    simp
    omega

end Length

namespace Text

def encode (cs : List Char) : List UInt8 :=
  cs.flatMap String.utf8EncodeChar

theorem utf8_eq_encode (s : String) : utf8 s = encode s.toList := by
  rw [utf8, String.toUTF8_eq_toByteArray, ← String.utf8Encode_toList, List.utf8Encode,
    List.data_toByteArray, encode]

theorem utf8_ofList (cs : List Char) : utf8 (.ofList cs) = encode cs := by
  rw [utf8_eq_encode, String.toList_ofList]

@[simp] theorem encode_nil : encode [] = [] :=
  rfl

@[simp] theorem encode_cons (c : Char) (cs : List Char) :
    encode (c :: cs) = String.utf8EncodeChar c ++ encode cs :=
  List.flatMap_cons

@[simp] theorem encode_append (cs ds : List Char) : encode (cs ++ ds) = encode cs ++ encode ds :=
  List.flatMap_append

theorem length_encode (cs : List Char) : (encode cs).length = utf8Length cs := by
  induction cs with
  | nil => rfl
  | cons c cs ih => simp [ih]

theorem encode_injective : Function.Injective encode := fun cs ds same =>
  String.ofList_injective (utf8_injective (by rw [utf8_ofList, utf8_ofList, same]))

/-- An ASCII byte is all of the character it belongs to. -/
theorem utf8EncodeChar_of_mem {c : Char} {b : UInt8} (mem : b ∈ String.utf8EncodeChar c)
    (ascii : b.toNat < 128) : String.utf8EncodeChar c = [b] := by
  unfold String.utf8EncodeChar at mem ⊢
  simp only at mem ⊢
  split at mem
  next small => rw [if_pos small, List.mem_singleton.1 mem]
  -- The bytes of a longer character all have their top bit set.
  all_goals
    exfalso
    split_ifs at mem
    all_goals
      simp only [List.mem_cons, List.not_mem_nil, or_false] at mem
      rcases mem with rfl | rfl | rfl | rfl <;> rw [UInt8.toNat_ofNat'] at ascii <;> omega

theorem exists_char_of_encode {cs : List Char} {before after : List UInt8} {b : UInt8}
    (ascii : b.toNat < 128) (encoded : encode cs = before ++ b :: after) :
    ∃ pre c post, cs = pre ++ c :: post ∧ encode pre = before ∧
      String.utf8EncodeChar c = [b] ∧ encode post = after := by
  induction cs generalizing before with
  | nil => simp at encoded
  | cons c cs ih =>
    rw [encode_cons, List.append_eq_append_iff] at encoded
    obtain ⟨later, rfl, rest⟩ | ⟨inside, parts, rest⟩ := encoded
    · obtain ⟨pre, d, post, rfl, rfl, byte, rfl⟩ := ih rest
      exact ⟨c :: pre, d, post, rfl, by simp, byte, rfl⟩
    · cases inside with
      | nil =>
        have later : encode cs = [] ++ b :: after := rest.symm
        obtain ⟨pre, d, post, rfl, nothing, byte, rfl⟩ := ih later
        exact ⟨c :: pre, d, post, rfl, by simpa [nothing] using parts, byte, rfl⟩
      | cons b' inside =>
        obtain ⟨rfl, rfl⟩ := List.cons.inj rest
        have whole := utf8EncodeChar_of_mem (c := c) (by simp [parts]) ascii
        rw [whole, List.singleton_eq_append_iff] at parts
        obtain ⟨rfl, alone⟩ | ⟨-, none⟩ := parts
        · obtain ⟨-, rfl⟩ := List.cons.inj alone
          exact ⟨[], c, cs, rfl, rfl, whole, rfl⟩
        · cases none

theorem exists_ascii_of_encode {cs : List Char} {before after : List UInt8} {c : Char}
    (ascii : c.toNat < 128) (encoded : encode cs = before ++ (String.utf8EncodeChar c ++ after)) :
    ∃ pre post, cs = pre ++ c :: post ∧ encode pre = before ∧ encode post = after := by
  have single : c.utf8Size = 1 :=
    Char.utf8Size_eq_one_iff.2 (UInt32.le_iff_toNat_le.2 (Nat.le_of_lt_succ ascii))
  have byte := String.utf8EncodeChar_eq_singleton single
  have small : c.val.toUInt8.toNat < 128 := Nat.lt_of_le_of_lt (Nat.mod_le _ _) ascii
  rw [byte, List.singleton_append] at encoded
  obtain ⟨pre, d, post, rfl, rfl, byte', rfl⟩ := exists_char_of_encode small encoded
  have same : encode [d] = encode [c] := by simp [byte, byte']
  obtain ⟨rfl, -⟩ := List.cons.inj (encode_injective same)
  exact ⟨pre, post, rfl, rfl, rfl⟩

theorem exists_word_of_encode {cs word : List Char} {before after : List UInt8}
    (ascii : ∀ c ∈ word, c.toNat < 128) (nonempty : word ≠ [])
    (encoded : encode cs = before ++ (encode word ++ after)) :
    ∃ pre post, cs = pre ++ (word ++ post) ∧ encode pre = before ∧ encode post = after := by
  induction word generalizing cs before with
  | nil => exact absurd rfl nonempty
  | cons c word ih =>
    rw [encode_cons, List.append_assoc] at encoded
    obtain ⟨pre, rest, rfl, rfl, later⟩ := exists_ascii_of_encode (ascii c (by simp)) encoded
    cases word with
    | nil => exact ⟨pre, rest, rfl, rfl, later⟩
    | cons d word =>
      have next : encode rest = [] ++ (encode (d :: word) ++ after) := later
      obtain ⟨nothing, post, rfl, none, rfl⟩ :=
        ih (fun x mem => ascii x (List.mem_cons_of_mem _ mem)) (by simp) next
      obtain rfl := encode_injective (none.trans encode_nil.symm)
      exact ⟨pre, post, rfl, rfl, rfl⟩

end Text

end Parley
