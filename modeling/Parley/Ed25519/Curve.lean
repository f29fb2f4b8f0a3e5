/-!
# The twisted Edwards curve

The curve `-x² + y² = 1 + d x² y²` over the integers modulo `2 ^ 255 - 19`, its points in extended
coordinates, and their encoding in 32 bytes: the `y` coordinate with the parity of `x` on top.
-/

namespace Parley.Ed25519

def prime : Nat := Nat.pow 2 255 - 19

instance : @NeZero Nat Zero.ofOfNat0 prime :=
  @NeZero.mk Nat Zero.ofOfNat0 prime (by decide)

abbrev Field := Fin prime

def bits (n : Nat) : List Bool :=
  (List.range 256).reverse.map n.testBit

def power (x : Field) (n : Nat) : Field :=
  (bits n).foldl (fun r b => if b then r * r * x else r * r) 1

def inverse (x : Field) : Field := power x (prime - 2)

def d : Field := (0 - 121665) * inverse 121666

def rootOfMinusOne : Field := power 2 ((prime - 1) / 4)

/-- A point `(x / z, y / z)` with `t = x y / z`. -/
structure Point where
  x : Field
  y : Field
  z : Field
  t : Field

namespace Point

def zero : Point := ⟨0, 1, 1, 0⟩

def neg (p : Point) : Point := ⟨0 - p.x, p.y, p.z, 0 - p.t⟩

def add (p q : Point) : Point :=
  let a := (p.y - p.x) * (q.y - q.x)
  let b := (p.y + p.x) * (q.y + q.x)
  let c := p.t * q.t * (d + d)
  let z := p.z * q.z
  let e := b - a
  let f := z + z - c
  let g := z + z + c
  let h := b + a
  ⟨e * f, g * h, f * g, e * h⟩

def mul (n : Nat) (p : Point) : Point :=
  (bits n).foldl (fun r b => if b then (r.add r).add p else r.add r) zero

end Point

/-- A square root of `u / v` that is even, if there is one. -/
def rootOfRatio? (u v : Field) : Option Field :=
  let v3 := v * v * v
  let r := u * v3 * power (u * v3 * v3 * v) ((prime - 5) / 8)
  let check := v * (r * r)
  let even (r : Field) : Field := if r.val % 2 = 0 then r else 0 - r
  if check = u then some (even r)
  else if check = 0 - u then some (even (r * rootOfMinusOne))
  else none

def ofLittleEndian (bytes : List UInt8) : Nat :=
  bytes.foldr (fun b n => b.toNat + 256 * n) 0

def toLittleEndian (count n : Nat) : List UInt8 :=
  (List.range count).map fun i => UInt8.ofNat (n / Nat.pow 256 i)

def Point.decode? (bytes : List UInt8) : Option Point := do
  let n := ofLittleEndian bytes
  let y : Field := Fin.ofNat prime (n % Nat.pow 2 255)
  let x ← rootOfRatio? (y * y - 1) (d * (y * y) + 1)
  let x := if n / Nat.pow 2 255 % 2 = 1 then 0 - x else x
  some ⟨x, y, 1, x * y⟩

def Point.encode (p : Point) : List UInt8 :=
  let w := inverse p.z
  toLittleEndian 32 ((p.y * w).val + Nat.pow 2 255 * ((p.x * w).val % 2))

def base : Point :=
  let y : Field := 4 * inverse 5
  let x := (rootOfRatio? (y * y - 1) (d * (y * y) + 1)).getD 0
  ⟨x, y, 1, x * y⟩

def order : Nat := Nat.pow 2 252 + 27742317777372353535851937790883648493

@[simp] theorem length_toLittleEndian (count n : Nat) :
    (toLittleEndian count n).length = count := by
  simp [toLittleEndian]

end Parley.Ed25519
