namespace Parley.Text.Hex

inductive Fault where
  | oddLength
  | badCharacter (byte : UInt8) (position : Nat)
  deriving DecidableEq, Repr

def encode (bytes : List UInt8) : List Char :=
  bytes.flatMap fun b => [Nat.digitChar (b.toNat / 16), Nat.digitChar (b.toNat % 16)]

def value? (c : Char) : Option Nat :=
  let n := c.toNat
  if 48 ≤ n ∧ n ≤ 57 then some (n - 48)
  else if 97 ≤ n ∧ n ≤ 102 then some (n - 87)
  else if 65 ≤ n ∧ n ≤ 70 then some (n - 55)
  else none

def values (position : Nat) : List Char → Except (Char × Nat) (List Nat)
  | [] => .ok []
  | c :: rest =>
    match value? c with
    | none => .error (c, position)
    | some v => (values (position + 1) rest).map (v :: ·)

def join : List Nat → List UInt8
  | high :: low :: rest => UInt8.ofNat (16 * high + low) :: join rest
  | _ => []

def leadByte (c : Char) : UInt8 :=
  (String.utf8EncodeChar c).headD 0

/-- Every character before the first fault is a digit and so one byte long, hence a count of
characters is a position in bytes. -/
def decode (text : String) : Except Fault (List UInt8) :=
  if text.utf8ByteSize % 2 = 1 then .error .oddLength
  else
    match values 0 text.toList with
    | .error (c, position) => .error (.badCharacter (leadByte c) position)
    | .ok vs => .ok (join vs)

def quoteByte (b : UInt8) : String :=
  let n := b.toNat
  let shown :=
    if n = 0 then "\\0"
    else if n = 9 then "\\t"
    else if n = 10 then "\\n"
    else if n = 13 then "\\r"
    else if n = 39 then "\\'"
    else if n = 92 then "\\\\"
    else if n < 32 ∨ (127 ≤ n ∧ n ≤ 160) ∨ n = 173 then
      "\\u\x7b" ++ String.ofList (Nat.toDigits 16 n) ++ "\x7d"
    else String.singleton (Char.ofNat n)
  "'" ++ shown ++ "'"

def Fault.message : Fault → String
  | .oddLength => "Odd number of digits"
  | .badCharacter b position => s!"Invalid character {quoteByte b} at position {position}"

@[simp] theorem length_encode (bytes : List UInt8) : (encode bytes).length = 2 * bytes.length := by
  induction bytes with
  | nil => rfl
  | cons b rest ih =>
    have : encode (b :: rest) =
        Nat.digitChar (b.toNat / 16) :: Nat.digitChar (b.toNat % 16) :: encode rest := by
      simp [encode]
    rw [this, List.length_cons, List.length_cons, ih, List.length_cons]
    omega

end Parley.Text.Hex
