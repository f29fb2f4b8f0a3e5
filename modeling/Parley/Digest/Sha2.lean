namespace Parley.Sha2

class Word (ω : Type) where
  bits : Nat
  rounds : Nat
  ofNat : Nat → ω
  toNat : ω → Nat
  add : ω → ω → ω
  xor : ω → ω → ω
  and : ω → ω → ω
  complement : ω → ω
  rotate : ω → Nat → ω
  shift : ω → Nat → ω
  rotationsA : Nat × Nat × Nat
  rotationsE : Nat × Nat × Nat
  schedule15 : Nat × Nat × Nat
  schedule2 : Nat × Nat × Nat

def isPrime (n : Nat) : Bool :=
  2 ≤ n && (List.range n).all fun d => d < 2 || n % d != 0

def primes : List Nat :=
  (List.range 410).filter isPrime

def root (k bits n : Nat) : Nat :=
  (List.range bits).foldr (fun b r => if Nat.pow (r + Nat.pow 2 b) k ≤ n then r + Nat.pow 2 b else r) 0

/-- The first `bits` fractional bits of the `k`-th root of a prime. -/
def fractionOfRoot (k bits p : Nat) : Nat :=
  root k (bits + 5) (p * Nat.pow 2 (k * bits)) % Nat.pow 2 bits

instance : Word UInt32 where
  bits := 32
  rounds := 64
  ofNat := UInt32.ofNat
  toNat := UInt32.toNat
  add x y := x + y
  xor x y := x ^^^ y
  and x y := x &&& y
  complement x := ~~~x
  rotate x n := (x >>> UInt32.ofNat n) ||| (x <<< UInt32.ofNat (32 - n))
  shift x n := x >>> UInt32.ofNat n
  rotationsA := (2, 13, 22)
  rotationsE := (6, 11, 25)
  schedule15 := (7, 18, 3)
  schedule2 := (17, 19, 10)

instance : Word UInt64 where
  bits := 64
  rounds := 80
  ofNat := UInt64.ofNat
  toNat := UInt64.toNat
  add x y := x + y
  xor x y := x ^^^ y
  and x y := x &&& y
  complement x := ~~~x
  rotate x n := (x >>> UInt64.ofNat n) ||| (x <<< UInt64.ofNat (64 - n))
  shift x n := x >>> UInt64.ofNat n
  rotationsA := (28, 34, 39)
  rotationsE := (14, 18, 41)
  schedule15 := (1, 8, 7)
  schedule2 := (19, 61, 6)

structure State (ω : Type) where
  a : ω
  b : ω
  c : ω
  d : ω
  e : ω
  f : ω
  g : ω
  h : ω

section

variable {ω : Type} [Word ω]

open Word

def State.words (s : State ω) : List ω :=
  [s.a, s.b, s.c, s.d, s.e, s.f, s.g, s.h]

def State.map₂ (op : ω → ω → ω) (s t : State ω) : State ω :=
  ⟨op s.a t.a, op s.b t.b, op s.c t.c, op s.d t.d, op s.e t.e, op s.f t.f, op s.g t.g, op s.h t.h⟩

def initial (ω : Type) [Word ω] (first : Nat) : State ω :=
  let word (i : Nat) : ω := ofNat (fractionOfRoot 2 (bits ω) (primes.getD (first + i) 0))
  ⟨word 0, word 1, word 2, word 3, word 4, word 5, word 6, word 7⟩

def roundConstants (ω : Type) [Word ω] : List ω :=
  (primes.take (rounds ω)).map fun p => ofNat (fractionOfRoot 3 (bits ω) p)

def rotations (amounts : Nat × Nat × Nat) (x : ω) : ω :=
  xor (rotate x amounts.1) (xor (rotate x amounts.2.1) (rotate x amounts.2.2))

def scheduled (amounts : Nat × Nat × Nat) (x : ω) : ω :=
  xor (rotate x amounts.1) (xor (rotate x amounts.2.1) (shift x amounts.2.2))

def nextWord (w : List ω) : ω :=
  let zero : ω := ofNat 0
  add (add (scheduled (schedule2 ω) (w.getD 14 zero)) (w.getD 9 zero))
    (add (scheduled (schedule15 ω) (w.getD 1 zero)) (w.getD 0 zero))

def round (s : State ω) (k w : ω) : State ω :=
  let choice := xor (and s.e s.f) (and (complement s.e) s.g)
  let majority := xor (and s.a s.b) (xor (and s.a s.c) (and s.b s.c))
  let t := add (add s.h (rotations (rotationsE ω) s.e)) (add choice (add k w))
  let u := add (rotations (rotationsA ω) s.a) majority
  ⟨add t u, s.a, s.b, s.c, add s.d t, s.e, s.f, s.g⟩

/-- The rounds of a block, one for each constant, over the sixteen words of the schedule at hand. -/
def compress (constants : List ω) (s : State ω) (block : List ω) : State ω :=
  let zero : ω := ofNat 0
  let last := constants.foldl
    (fun (w, t) k => (w.tail ++ [nextWord w], round t k (w.headD zero))) (block, s)
  State.map₂ add s last.2

def bigEndian (count n : Nat) : List UInt8 :=
  (List.range count).reverse.map fun i => UInt8.ofNat (n / Nat.pow 256 i)

def pad (ω : Type) [Word ω] (message : List UInt8) : List UInt8 :=
  let blockBytes := 2 * bits ω
  let lengthBytes := bits ω / 4
  let used := (message.length + 1 + lengthBytes) % blockBytes
  message ++ 0x80 :: (List.replicate ((blockBytes - used) % blockBytes) 0 ++
    bigEndian lengthBytes (8 * message.length))

def wordOf (bytes : List UInt8) : ω :=
  ofNat (bytes.foldl (fun n b => n * 256 + b.toNat) 0)

def chunks {α : Type} (length : Nat) : Nat → List α → List (List α)
  | 0, _ => []
  | count + 1, xs => xs.take length :: chunks length count (xs.drop length)

def finish (constants : List ω) (start : State ω) (message : List UInt8) : State ω :=
  let data := pad ω message
  let words : List ω := (chunks (bits ω / 8) (data.length / (bits ω / 8)) data).map wordOf
  (chunks 16 (words.length / 16) words).foldl (compress constants) start

def State.bytes (s : State ω) : List UInt8 :=
  s.words.flatMap fun w => bigEndian (bits ω / 8) (toNat w)

end

def constants256 : List UInt32 := roundConstants UInt32

def constants512 : List UInt64 := roundConstants UInt64

def start256 : State UInt32 := initial UInt32 0

def start384 : State UInt64 := initial UInt64 8

def start512 : State UInt64 := initial UInt64 0

def sha256 (message : List UInt8) : List UInt8 :=
  (finish constants256 start256 message).bytes

def sha512 (message : List UInt8) : List UInt8 :=
  (finish constants512 start512 message).bytes

def sha384 (message : List UInt8) : List UInt8 :=
  (finish constants512 start384 message).bytes.take 48

@[simp] theorem length_bigEndian (count n : Nat) : (bigEndian count n).length = count := by
  simp [bigEndian]

theorem State.length_bytes {ω : Type} [Word ω] (s : State ω) :
    s.bytes.length = 8 * (Word.bits ω / 8) := by
  simp only [State.bytes, State.words, List.flatMap_cons, List.flatMap_nil, List.length_append,
    length_bigEndian, List.length_nil]
  omega

@[simp] theorem length_sha256 (message : List UInt8) : (sha256 message).length = 32 :=
  State.length_bytes _

@[simp] theorem length_sha512 (message : List UInt8) : (sha512 message).length = 64 :=
  State.length_bytes _

@[simp] theorem length_sha384 (message : List UInt8) : (sha384 message).length = 48 := by
  have : (finish constants512 start384 message).bytes.length = 64 := State.length_bytes _
  simp [sha384, this]

end Parley.Sha2
