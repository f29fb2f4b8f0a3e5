import Parley.Digest.Sha2

namespace Parley.Blake3

def initialWords : Vector UInt32 8 :=
  Vector.ofFn fun i => UInt32.ofNat (Sha2.fractionOfRoot 2 32 (Sha2.primes.getD i.val 0))

structure Role where
  chunkStart : Bool
  chunkEnd : Bool
  parent : Bool
  root : Bool

def Role.flags (r : Role) : UInt32 :=
  (if r.chunkStart then 1 else 0) + (if r.chunkEnd then 2 else 0) +
    (if r.parent then 4 else 0) + (if r.root then 8 else 0)

def rotateRight (x n : UInt32) : UInt32 :=
  (x >>> n) ||| (x <<< (32 - n))

def mix (v : Vector UInt32 16) (a b c d : Fin 16) (x y : UInt32) : Vector UInt32 16 :=
  let va := v[a] + v[b] + x
  let vd := rotateRight (v[d] ^^^ va) 16
  let vc := v[c] + vd
  let vb := rotateRight (v[b] ^^^ vc) 12
  let va := va + vb + y
  let vd := rotateRight (vd ^^^ va) 8
  let vc := vc + vd
  let vb := rotateRight (vb ^^^ vc) 7
  (((v.set a va).set b vb).set c vc).set d vd

def round (v m : Vector UInt32 16) : Vector UInt32 16 :=
  let v := mix v 0 4 8 12 m[0] m[1]
  let v := mix v 1 5 9 13 m[2] m[3]
  let v := mix v 2 6 10 14 m[4] m[5]
  let v := mix v 3 7 11 15 m[6] m[7]
  let v := mix v 0 5 10 15 m[8] m[9]
  let v := mix v 1 6 11 12 m[10] m[11]
  let v := mix v 2 7 8 13 m[12] m[13]
  mix v 3 4 9 14 m[14] m[15]

def permute (m : Vector UInt32 16) : Vector UInt32 16 :=
  #v[m[2], m[6], m[3], m[10], m[7], m[0], m[4], m[13], m[1], m[11], m[12], m[5], m[9], m[14], m[15],
    m[8]]

def rounds : Nat → Vector UInt32 16 → Vector UInt32 16 → Vector UInt32 16
  | 0, v, _ => v
  | n + 1, v, m => rounds n (round v m) (permute m)

def compress (h : Vector UInt32 8) (m : Vector UInt32 16) (counter length : Nat) (role : Role) :
    Vector UInt32 8 :=
  let v := rounds 7 #v[h[0], h[1], h[2], h[3], h[4], h[5], h[6], h[7],
    initialWords[0], initialWords[1], initialWords[2], initialWords[3],
    UInt32.ofNat counter, UInt32.ofNat (counter / Nat.pow 2 32), UInt32.ofNat length, role.flags] m
  Vector.ofFn fun i => v[i.val] ^^^ v[i.val + 8]

def wordAt (data : Array UInt8) (i : Nat) : UInt32 :=
  UInt32.ofNat ((data.getD i 0).toNat + 256 * (data.getD (i + 1) 0).toNat +
    65536 * (data.getD (i + 2) 0).toNat + 16777216 * (data.getD (i + 3) 0).toNat)

def chunk (data : Array UInt8) (index : Nat) (root : Bool) : Vector UInt32 8 :=
  let start := 1024 * index
  let length := min 1024 (data.size - start)
  let blocks := max 1 ((length + 63) / 64)
  (List.range blocks).foldl (fun h j =>
    let last := j + 1 == blocks
    compress h (Vector.ofFn fun i => wordAt data (start + 64 * j + 4 * i.val)) index
      (min 64 (length - 64 * j)) ⟨j == 0, last, false, last && root⟩) initialWords

/-- The number of chunks in the left subtree: the greatest power of two below the whole. -/
def leftChunks (count : Nat) : Nat :=
  Nat.pow 2 (count - 1).log2

theorem leftChunks_lt {count : Nat} (h : ¬ count ≤ 1) : leftChunks count < count := by
  have : Nat.pow 2 (count - 1).log2 ≤ count - 1 := Nat.log2_self_le (by omega)
  unfold leftChunks
  omega

theorem leftChunks_pos (count : Nat) : 0 < leftChunks count :=
  Nat.two_pow_pos _

def subtree (data : Array UInt8) (first count : Nat) (root : Bool) : Vector UInt32 8 :=
  if _h : count ≤ 1 then chunk data first root
  else
    let left := subtree data first (leftChunks count) false
    let right := subtree data (first + leftChunks count) (count - leftChunks count) false
    compress initialWords (left ++ right) 0 64 ⟨false, false, true, root⟩
termination_by count
decreasing_by
  · exact leftChunks_lt ‹_›
  · have := leftChunks_pos count
    omega

def littleEndian (w : UInt32) : List UInt8 :=
  [UInt8.ofNat w.toNat, UInt8.ofNat (w.toNat / 256), UInt8.ofNat (w.toNat / 65536),
    UInt8.ofNat (w.toNat / 16777216)]

def blake3 (message : List UInt8) : List UInt8 :=
  let data := message.toArray
  (subtree data 0 ((data.size + 1023) / 1024) true).toList.flatMap littleEndian

@[simp] theorem length_blake3 (message : List UInt8) : (blake3 message).length = 32 := by
  have h : ∀ l : List UInt32, (l.flatMap littleEndian).length = 4 * l.length := by
    intro l
    induction l with
    | nil => rfl
    | cons w rest ih => simp [List.flatMap_cons, littleEndian, ih]; omega
  simp [blake3, h]

end Parley.Blake3
