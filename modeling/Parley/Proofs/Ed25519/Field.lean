import Mathlib.Data.Nat.Prime.Basic
import Mathlib.NumberTheory.LegendreSymbol.Basic
import Mathlib.NumberTheory.LucasPrimality
import Mathlib.Tactic.NormNum.Prime
import Parley.Ed25519.Curve
import Parley.Proofs.Edwards

namespace Parley.Ed25519

theorem foldl_bits {α : Type} {step : α → Bool → α} {R : α → Nat → Prop} {start : α}
    (zero : R start 0) (next : ∀ r k b, R r k → R (step r b) (2 * k + b.toNat))
    {n : Nat} (hn : n < 2 ^ 256) : R ((bits n).foldl step start) n := by
  have go (w : Nat) : ∀ r k, R r k →
      R (((List.range w).reverse.map n.testBit).foldl step r) (k * 2 ^ w + n % 2 ^ w) := by
    induction w with
    | zero => intro r k h; simpa [Nat.mod_one] using h
    | succ w ih =>
      intro r k h
      have := ih _ _ (next r k (n.testBit w) h)
      rw [List.range_succ, List.reverse_append, List.reverse_singleton, List.singleton_append,
        List.map_cons, List.foldl_cons]
      have e : k * 2 ^ (w + 1) + n % 2 ^ (w + 1) =
          (2 * k + (n.testBit w).toNat) * 2 ^ w + n % 2 ^ w := by
        rw [Nat.mod_pow_succ, Nat.toNat_testBit]
        ring
      rwa [e]
  have := go 256 start 0 zero
  rwa [Nat.zero_mul, Nat.zero_add, Nat.mod_eq_of_lt hn] at this

def powMod (m a n : Nat) : Nat :=
  (bits n).foldl (fun r b => if b then r * r % m * a % m else r * r % m) 1

theorem cast_powMod (m a : Nat) {n : Nat} (hn : n < 2 ^ 256) :
    (powMod m a n : ZMod m) = (a : ZMod m) ^ n := by
  unfold powMod
  refine foldl_bits (R := fun r k => ((r : Nat) : ZMod m) = (a : ZMod m) ^ k) ?_ ?_ hn
  · rw [Nat.cast_one, pow_zero]
  · intro r k b h
    cases b with
    | false =>
      simp only [Bool.false_eq_true, if_false, ZMod.natCast_mod, Nat.cast_mul, h, Bool.toNat_false]
      ring
    | true =>
      simp only [if_true, ZMod.natCast_mod, Nat.cast_mul, h, Bool.toNat_true]
      ring

theorem prime_of_factors {p : Nat} (a : Nat) (factors : List Nat)
    (primes : ∀ q ∈ factors, q.Prime) (prod : factors.prod = p - 1)
    (range : 1 < p ∧ p < 2 ^ 256) (whole : powMod p a (p - 1) = 1)
    (parts : ∀ q ∈ factors, powMod p a ((p - 1) / q) % p ≠ 1) : p.Prime := by
  have bound {k : Nat} (hk : k ≤ p - 1) : k < 2 ^ 256 := by omega
  refine lucas_primality p a ?_ fun q hq hdvd h => ?_
  · rw [← cast_powMod p a (bound le_rfl), whole, Nat.cast_one]
  · rw [← prod, Prime.dvd_prod_iff hq.prime] at hdvd
    obtain ⟨r, hr, hqr⟩ := hdvd
    obtain rfl := (Nat.prime_dvd_prime_iff_eq hq (primes r hr)).1 hqr
    refine parts q hr ?_
    have h' : ((powMod p a ((p - 1) / q) : Nat) : ZMod p) = (1 : Nat) := by
      rw [cast_powMod p a (bound (Nat.div_le_self _ _)), h, Nat.cast_one]
    rwa [ZMod.natCast_eq_natCast_iff', Nat.mod_eq_of_lt range.1] at h'

structure Candidate where
  number : Nat
  base : Nat
  factors : List Nat

/-- A chain of tests: the factors of each number are numbers further down or known primes. -/
def certifies (known : List Nat) : List Candidate → Bool
  | [] => true
  | ⟨p, a, factors⟩ :: rest =>
    factors.all (fun q => q ∈ known ++ rest.map Candidate.number) && factors.prod = p - 1 &&
      (1 < p && p < 2 ^ 256) && powMod p a (p - 1) = 1 &&
      factors.all (fun q => powMod p a ((p - 1) / q) % p ≠ 1) && certifies known rest

theorem prime_of_certifies {known : List Nat} (hknown : ∀ q ∈ known, q.Prime)
    {chain : List Candidate} (h : certifies known chain) :
    ∀ p ∈ chain.map Candidate.number, p.Prime := by
  induction chain with
  | nil => simp
  | cons candidate rest ih =>
    simp only [certifies, Bool.and_eq_true, decide_eq_true_eq, List.all_eq_true] at h
    obtain ⟨⟨⟨⟨⟨closed, prod⟩, range⟩, whole⟩, parts⟩, certified⟩ := h
    have primes : ∀ q ∈ candidate.factors, q.Prime := fun q hq =>
      (List.mem_append.1 (closed q hq)).elim (hknown q) (ih certified q)
    exact List.forall_mem_cons.2
      ⟨prime_of_factors candidate.base candidate.factors primes prod range whole parts, ih certified⟩

def smallPrimes : List Nat :=
  [2, 3, 5, 7, 13, 19, 31, 47, 107, 127, 223, 353, 2437, 4153, 57467, 65147, 75707, 132049, 430751,
    569003, 1923133, 8574133]

def primeChain : List Candidate :=
  [⟨prime, 2,
      [2, 2, 3, 65147, 74058212732561358302231226437062788676166966415465897661863160754340907]⟩,
    ⟨74058212732561358302231226437062788676166966415465897661863160754340907, 2,
      [2, 3, 353, 57467, 132049, 1923133, 31757755568855353,
        75445702479781427272750846543864801]⟩,
    ⟨75445702479781427272750846543864801, 7,
      [2, 2, 2, 2, 2, 3, 3, 5, 5, 75707, 72106336199, 1919519569386763]⟩,
    ⟨31757755568855353, 10, [2, 2, 2, 3, 31, 107, 223, 4153, 430751]⟩,
    ⟨1919519569386763, 2, [2, 3, 7, 19, 47, 47, 127, 8574133]⟩,
    ⟨72106336199, 7, [2, 13, 2773320623]⟩,
    ⟨2773320623, 5, [2, 2437, 569003]⟩]

theorem prime_prime : Nat.Prime prime :=
  prime_of_certifies (by norm_num [smallPrimes])
    (show certifies smallPrimes primeChain by decide +kernel) prime
    (List.mem_map_of_mem List.mem_cons_self)

instance : Fact prime.Prime := ⟨prime_prime⟩

def value (x : Field) : ZMod prime := (x.val : ZMod prime)

@[simp] theorem val_value (x : Field) : (value x).val = x.val := by
  rw [value, ZMod.val_natCast, Nat.mod_eq_of_lt x.isLt]

theorem value_injective {x y : Field} (h : value x = value y) : x = y :=
  Fin.ext (by rw [← val_value, h, val_value])

@[simp] theorem value_add (x y : Field) : value (x + y) = value x + value y := by
  simp [value, Fin.val_add]

@[simp] theorem value_mul (x y : Field) : value (x * y) = value x * value y := by
  simp [value, Fin.val_mul]

@[simp] theorem value_sub (x y : Field) : value (x - y) = value x - value y := by
  have := Nat.cast_sub (R := ZMod prime) y.isLt.le
  simp [value, Fin.val_sub, this]
  ring

theorem value_ofNat (n : Nat) : value (Fin.ofNat prime n) = n := by
  simp [value]

@[simp] theorem value_zero : value 0 = 0 :=
  (value_ofNat 0).trans Nat.cast_zero

@[simp] theorem value_one : value 1 = 1 :=
  (value_ofNat 1).trans Nat.cast_one

@[simp] theorem value_zero_sub (x : Field) : value (0 - x) = -value x := by
  rw [value_sub, value_zero, zero_sub]

theorem value_eq_zero {x : Field} : value x = 0 ↔ x = 0 := by
  rw [← value_zero]
  exact ⟨value_injective, congrArg value⟩

theorem value_power (x : Field) {n : Nat} (hn : n < 2 ^ 256) : value (power x n) = value x ^ n := by
  unfold power
  refine foldl_bits (R := fun r k => value r = value x ^ k) ?_ ?_ hn
  · rw [value_one, pow_zero]
  · intro r k b h
    cases b with
    | false =>
      simp only [Bool.false_eq_true, if_false, value_mul, h, Bool.toNat_false]
      ring
    | true =>
      simp only [if_true, value_mul, h, Bool.toNat_true]
      ring

theorem value_inverse (x : Field) : value (inverse x) = (value x)⁻¹ := by
  rw [inverse, value_power x (by decide)]
  by_cases h : value x = 0
  · rw [h, inv_zero, zero_pow (by decide)]
  · refine eq_inv_of_mul_eq_one_left ?_
    have e : prime - 2 + 1 = prime - 1 := by decide
    rw [← pow_succ, e]
    exact ZMod.pow_card_sub_one_eq_one h

theorem rootOfMinusOne_sq : value rootOfMinusOne * value rootOfMinusOne = -1 := by
  have : rootOfMinusOne * rootOfMinusOne = 0 - 1 := by decide +kernel
  rw [← value_mul, this, value_sub, value_zero, value_one, zero_sub]

theorem not_isSquare_d : ¬ IsSquare (value d) := by
  have h0 : value d ≠ 0 := fun h => by
    have : d ≠ 0 := by decide +kernel
    exact this (value_eq_zero.1 h)
  rw [ZMod.euler_criterion prime h0, ← value_power d (by decide), ← value_one]
  have : power d (prime / 2) ≠ 1 := by decide +kernel
  exact fun h => this (value_injective h)

instance : Edwards.Complete (value d) where
  two_ne_zero h := by
    have : (2 : Field) ≠ 0 := by decide
    refine this (value_injective ?_)
    rw [value_zero, ← h]
    exact (value_ofNat 2).trans Nat.cast_two
  isSquare_minusOne := ⟨value rootOfMinusOne, rootOfMinusOne_sq.symm⟩
  not_isSquare := not_isSquare_d

end Parley.Ed25519
