import Mathlib.Algebra.Field.Basic
import Mathlib.Algebra.Group.Even
import Mathlib.Tactic.FieldSimp
import Mathlib.Tactic.LinearCombination
import Mathlib.Tactic.Ring

/-!
# The group of a twisted Edwards curve

The solutions of `y² - x² = 1 + d x² y²` over a field in which minus one is a square and `d` is not.
The denominators of the addition law never vanish there, so the law has no exceptions, and the
solutions are a commutative group under it.
-/

namespace Parley.Edwards

variable {K : Type} [Field K]

class Complete (d : K) : Prop where
  two_ne_zero : (2 : K) ≠ 0
  isSquare_minusOne : IsSquare (-1 : K)
  not_isSquare : ¬ IsSquare d

@[ext]
structure Affine (d : K) where
  x : K
  y : K
  on_curve : y ^ 2 - x ^ 2 = 1 + d * x ^ 2 * y ^ 2

variable {d : K}

def cross (p q : Affine d) : K := d * p.x * q.x * p.y * q.y

theorem cross_comm (p q : Affine d) : cross p q = cross q p := by
  simp only [cross]
  ring

namespace Affine

instance : Zero (Affine d) := ⟨⟨0, 1, by ring⟩⟩

instance : Neg (Affine d) := ⟨fun p => ⟨-p.x, p.y, by linear_combination p.on_curve⟩⟩

@[simp] theorem zero_x : (0 : Affine d).x = 0 := rfl

@[simp] theorem zero_y : (0 : Affine d).y = 1 := rfl

@[simp] theorem neg_x (p : Affine d) : (-p).x = -p.x := rfl

@[simp] theorem neg_y (p : Affine d) : (-p).y = p.y := rfl

end Affine

variable [Complete d]

/-- If the product were a sign, `d` would be a quotient of squares. -/
theorem cross_sq_ne_one (p q : Affine d) : cross p q ^ 2 ≠ 1 := by
  intro h
  obtain ⟨i, hi⟩ := Complete.isSquare_minusOne d
  have hp := p.on_curve
  have hq := q.on_curve
  have hne : cross p q ≠ 0 := fun h0 => by simp [h0] at h
  have hx : p.x ≠ 0 := fun h0 => hne (by simp [cross, h0])
  have hy : p.y ≠ 0 := fun h0 => hne (by simp [cross, h0])
  have hx' : q.x ≠ 0 := fun h0 => hne (by simp [cross, h0])
  have square (j : K) (hj : -1 = j * j) :
      d * (p.x * p.y * (j * q.x + q.y)) ^ 2 = (j * p.x + cross p q * p.y) ^ 2 := by
    simp only [cross] at h ⊢
    linear_combination d * p.x ^ 2 * p.y ^ 2 * hq + (1 - p.y ^ 2) * h - hp -
      (d * p.x ^ 2 * p.y ^ 2 * q.x ^ 2 - p.x ^ 2) * hj
  have root (j : K) (hj : -1 = j * j) : j * q.x + q.y = 0 := by
    by_contra hne'
    refine Complete.not_isSquare (d := d) ⟨(j * p.x + cross p q * p.y) /
      (p.x * p.y * (j * q.x + q.y)), ?_⟩
    have := square j hj
    field_simp
    linear_combination this
  -- Both roots of minus one would do, which leaves no room for the second point.
  have h1 := root i hi
  have h2 := root (-i) (by linear_combination hi)
  have hi0 : i ≠ 0 := fun h0 => by simp [h0] at hi
  have : 2 * (i * q.x) = 0 := by linear_combination h1 - h2
  rcases mul_eq_zero.1 this with h | h
  · exact Complete.two_ne_zero d h
  · exact (mul_ne_zero hi0 hx') h

theorem one_add_cross_ne_zero (p q : Affine d) : 1 + cross p q ≠ 0 := fun h =>
  cross_sq_ne_one p q (by linear_combination (cross p q - 1) * h)

theorem one_sub_cross_ne_zero (p q : Affine d) : 1 - cross p q ≠ 0 := fun h =>
  cross_sq_ne_one p q (by linear_combination -(cross p q + 1) * h)

namespace Affine

instance : Add (Affine d) where
  add p q :=
    { x := (p.x * q.y + q.x * p.y) / (1 + cross p q)
      y := (p.y * q.y + p.x * q.x) / (1 - cross p q)
      on_curve := by
        have hp := p.on_curve
        have hq := q.on_curve
        have := one_add_cross_ne_zero p q
        have := one_sub_cross_ne_zero p q
        field_simp
        simp only [cross]
        linear_combination
          (1 + (d * p.x * q.x * p.y * q.y) ^ 2) *
              ((q.y ^ 2 - q.x ^ 2) * hp + (1 + d * p.x ^ 2 * p.y ^ 2) * hq) -
            d * p.x ^ 2 * p.y ^ 2 * (q.y ^ 2 - q.x ^ 2 + 1 + d * q.x ^ 2 * q.y ^ 2) * hq -
            d * q.x ^ 2 * q.y ^ 2 * (p.y ^ 2 - p.x ^ 2 + 1 + d * p.x ^ 2 * p.y ^ 2) * hp }

theorem add_x (p q : Affine d) : (p + q).x = (p.x * q.y + q.x * p.y) / (1 + cross p q) := rfl

theorem add_y (p q : Affine d) : (p + q).y = (p.y * q.y + p.x * q.x) / (1 - cross p q) := rfl

theorem add_x_mul (p q : Affine d) : (p + q).x * (1 + cross p q) = p.x * q.y + q.x * p.y :=
  div_mul_cancel₀ _ (one_add_cross_ne_zero p q)

theorem add_y_mul (p q : Affine d) : (p + q).y * (1 - cross p q) = p.y * q.y + p.x * q.x :=
  div_mul_cancel₀ _ (one_sub_cross_ne_zero p q)

protected theorem add_comm (p q : Affine d) : p + q = q + p := by
  ext
  · rw [add_x, add_x, cross_comm]
    ring
  · rw [add_y, add_y, cross_comm]
    ring

def denominator (e : K) (p q r : Affine d) : K :=
  (1 + cross p q) * (1 - cross p q) +
    e * (d * (p.x * q.y + q.x * p.y) * (p.y * q.y + p.x * q.x) * r.x * r.y)

theorem denominator_eq (e : K) (p q r : Affine d) :
    denominator e p q r = (1 + cross p q) * (1 - cross p q) * (1 + e * cross (p + q) r) := by
  rw [denominator, ← add_x_mul, ← add_y_mul]
  simp only [cross]
  ring

theorem denominator_one_ne_zero (p q r : Affine d) : denominator 1 p q r ≠ 0 := by
  rw [denominator_eq, one_mul]
  exact mul_ne_zero (mul_ne_zero (one_add_cross_ne_zero p q) (one_sub_cross_ne_zero p q))
    (one_add_cross_ne_zero _ r)

theorem denominator_minusOne_ne_zero (p q r : Affine d) : denominator (-1) p q r ≠ 0 := by
  rw [denominator_eq, neg_one_mul, ← sub_eq_add_neg]
  exact mul_ne_zero (mul_ne_zero (one_add_cross_ne_zero p q) (one_sub_cross_ne_zero p q))
    (one_sub_cross_ne_zero _ r)

theorem add_add_x_mul (p q r : Affine d) :
    (p + q + r).x * denominator 1 p q r =
      (p.x * q.y + q.x * p.y) * (1 - cross p q) * r.y +
        (p.y * q.y + p.x * q.x) * (1 + cross p q) * r.x := by
  rw [denominator_eq, ← add_x_mul, ← add_y_mul]
  linear_combination (1 + cross p q) * (1 - cross p q) * add_x_mul (p + q) r

theorem add_add_y_mul (p q r : Affine d) :
    (p + q + r).y * denominator (-1) p q r =
      (p.y * q.y + p.x * q.x) * (1 + cross p q) * r.y +
        (p.x * q.y + q.x * p.y) * (1 - cross p q) * r.x := by
  rw [denominator_eq, ← add_x_mul, ← add_y_mul]
  linear_combination (1 + cross p q) * (1 - cross p q) * add_y_mul (p + q) r

/-- Both groupings have one numerator and one denominator up to the equation of the curve. -/
protected theorem add_assoc (p q r : Affine d) : p + q + r = p + (q + r) := by
  rw [Affine.add_comm p (q + r)]
  have hp := p.on_curve
  have hq := q.on_curve
  have hr := r.on_curve
  ext
  · have h1 := add_add_x_mul p q r
    have h2 := add_add_x_mul q r p
    refine mul_right_cancel₀ (denominator_one_ne_zero p q r)
      (mul_right_cancel₀ (denominator_one_ne_zero q r p) ?_)
    rw [h1, mul_right_comm (q + r + p).x, h2]
    simp only [denominator, cross]
    linear_combination
      d * q.x * q.y *
          ((1 + d * q.y ^ 2) * q.x ^ 3 * r.x * r.y * (p.y * r.y - p.x * r.x) +
            (1 - d * q.x ^ 2) * q.y ^ 3 * r.x * r.y * (p.x * r.y - p.y * r.x) -
            (r.x ^ 2 + 1) * q.x * q.y * r.x * (p.x * q.x + p.y * q.y) +
            (r.y ^ 2 - 1) * q.x * q.y * r.y * (p.x * q.y + p.y * q.x)) * hp +
        d * q.x * q.y *
          ((p.x ^ 2 + 1) * p.x * r.x * r.y * (q.x * r.x + q.y * r.y) +
            (p.y ^ 2 - 1) * p.y * r.x * r.y * (q.x * r.y + q.y * r.x) -
            (r.x ^ 2 + 1) * p.x * p.y * r.x * (p.x * q.x + p.y * q.y) -
            (r.y ^ 2 - 1) * p.x * p.y * r.y * (p.x * q.y + p.y * q.x)) * hq +
        d * q.x * q.y *
          ((p.x ^ 2 + 1) * p.x * q.x * q.y * (q.x * r.x + q.y * r.y) -
            (p.y ^ 2 - 1) * p.y * q.x * q.y * (q.x * r.y + q.y * r.x) +
            (1 + d * q.y ^ 2) * q.x ^ 3 * p.x * p.y * (p.x * r.x - p.y * r.y) +
            (1 - d * q.x ^ 2) * q.y ^ 3 * p.x * p.y * (p.x * r.y - p.y * r.x)) * hr
  · have h1 := add_add_y_mul p q r
    have h2 := add_add_y_mul q r p
    refine mul_right_cancel₀ (denominator_minusOne_ne_zero p q r)
      (mul_right_cancel₀ (denominator_minusOne_ne_zero q r p) ?_)
    rw [h1, mul_right_comm (q + r + p).y, h2]
    simp only [denominator, cross]
    linear_combination
      d * q.x * q.y *
          ((1 + d * q.y ^ 2) * q.x ^ 3 * r.x * r.y * (p.x * r.y - p.y * r.x) +
            (1 - d * q.x ^ 2) * q.y ^ 3 * r.x * r.y * (p.y * r.y - p.x * r.x) +
            (r.y ^ 2 - 1) * q.x * q.y * r.y * (p.x * q.x + p.y * q.y) -
            (r.x ^ 2 + 1) * q.x * q.y * r.x * (p.x * q.y + p.y * q.x)) * hp +
        d * q.x * q.y *
          ((r.y ^ 2 - 1) * p.x * p.y * r.y * (p.x * q.x + p.y * q.y) +
            (r.x ^ 2 + 1) * p.x * p.y * r.x * (p.x * q.y + p.y * q.x) -
            (p.x ^ 2 + 1) * p.x * r.x * r.y * (q.x * r.y + q.y * r.x) -
            (p.y ^ 2 - 1) * p.y * r.x * r.y * (q.x * r.x + q.y * r.y)) * hq +
        d * q.x * q.y *
          ((p.x ^ 2 + 1) * p.x * q.x * q.y * (q.x * r.y + q.y * r.x) -
            (p.y ^ 2 - 1) * p.y * q.x * q.y * (q.x * r.x + q.y * r.y) +
            (1 + d * q.y ^ 2) * q.x ^ 3 * p.x * p.y * (p.x * r.y - p.y * r.x) +
            (1 - d * q.x ^ 2) * q.y ^ 3 * p.x * p.y * (p.x * r.x - p.y * r.y)) * hr

protected theorem zero_add (p : Affine d) : 0 + p = p := by
  ext
  · simp [add_x, cross]
  · simp [add_y, cross]

protected theorem neg_add_cancel (p : Affine d) : -p + p = 0 := by
  have h := one_sub_cross_ne_zero (-p) p
  ext
  · rw [add_x, neg_x, neg_y, zero_x, div_eq_zero_iff]
    left
    ring
  · rw [add_y, zero_y, div_eq_one_iff_eq h]
    simp only [cross, neg_x, neg_y]
    linear_combination p.on_curve

instance : AddCommGroup (Affine d) where
  add_assoc := Affine.add_assoc
  zero_add := Affine.zero_add
  add_zero p := by rw [Affine.add_comm, Affine.zero_add]
  neg_add_cancel := Affine.neg_add_cancel
  add_comm := Affine.add_comm
  nsmul := nsmulRec
  zsmul := zsmulRec

end Affine

end Parley.Edwards
