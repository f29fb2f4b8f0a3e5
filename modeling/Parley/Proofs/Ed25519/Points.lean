import Parley.Ed25519.Basic
import Parley.Proofs.Ed25519.Field

namespace Parley.Ed25519

abbrev Group := Edwards.Affine (value d)

/-- That a point in extended coordinates stands for an element of the group. -/
structure Point.Represents (p : Point) (a : Group) : Prop where
  z_ne_zero : value p.z ≠ 0
  x_eq : value p.x = a.x * value p.z
  y_eq : value p.y = a.y * value p.z
  t_eq : value p.t = a.x * a.y * value p.z

namespace Point.Represents

variable {p q : Point} {a b : Group}

theorem zero : Point.zero.Represents 0 where
  z_ne_zero := by simp [Point.zero]
  x_eq := by simp [Point.zero]
  y_eq := by simp [Point.zero]
  t_eq := by simp [Point.zero]

theorem neg (h : p.Represents a) : p.neg.Represents (-a) where
  z_ne_zero := h.z_ne_zero
  x_eq := by
    simp only [Point.neg, value_zero_sub, h.x_eq, Edwards.Affine.neg_x, neg_mul]
  y_eq := h.y_eq
  t_eq := by
    simp only [Point.neg, value_zero_sub, h.t_eq, Edwards.Affine.neg_x, Edwards.Affine.neg_y,
      neg_mul]

theorem add (hp : p.Represents a) (hq : q.Represents b) : (p.add q).Represents (a + b) := by
  have hx := Edwards.Affine.add_x_mul a b
  have hy := Edwards.Affine.add_y_mul a b
  have hz : value (p.add q).z = 4 * (value p.z * value q.z) ^ 2 *
      ((1 - Edwards.cross a b) * (1 + Edwards.cross a b)) := by
    simp only [Point.add, value_mul, value_add, value_sub, hp.t_eq, hq.t_eq, Edwards.cross]
    ring
  refine ⟨?_, ?_, ?_, ?_⟩
  · rw [hz]
    have h2 := Edwards.Complete.two_ne_zero (value d)
    have h4 : (4 : ZMod prime) ≠ 0 := by
      rw [show (4 : ZMod prime) = 2 * 2 by ring]
      exact mul_ne_zero h2 h2
    exact mul_ne_zero (mul_ne_zero h4 (pow_ne_zero 2 (mul_ne_zero hp.z_ne_zero hq.z_ne_zero)))
      (mul_ne_zero (Edwards.one_sub_cross_ne_zero a b) (Edwards.one_add_cross_ne_zero a b))
  · rw [hz]
    have : value (p.add q).x = 4 * (value p.z * value q.z) ^ 2 *
        ((1 - Edwards.cross a b) * (a.x * b.y + b.x * a.y)) := by
      simp only [Point.add, value_mul, value_add, value_sub, hp.x_eq, hp.y_eq, hp.t_eq, hq.x_eq,
        hq.y_eq, hq.t_eq, Edwards.cross]
      ring
    rw [this, ← hx]
    ring
  · rw [hz]
    have : value (p.add q).y = 4 * (value p.z * value q.z) ^ 2 *
        ((1 + Edwards.cross a b) * (a.y * b.y + a.x * b.x)) := by
      simp only [Point.add, value_mul, value_add, value_sub, hp.x_eq, hp.y_eq, hp.t_eq, hq.x_eq,
        hq.y_eq, hq.t_eq, Edwards.cross]
      ring
    rw [this, ← hy]
    ring
  · rw [hz]
    have : value (p.add q).t = 4 * (value p.z * value q.z) ^ 2 *
        ((a.x * b.y + b.x * a.y) * (a.y * b.y + a.x * b.x)) := by
      simp only [Point.add, value_mul, value_add, value_sub, hp.x_eq, hp.y_eq, hq.x_eq, hq.y_eq]
      ring
    rw [this, ← hx, ← hy]
    ring

theorem mul (h : p.Represents a) {n : Nat} (hn : n < 2 ^ 256) : (p.mul n).Represents (n • a) := by
  unfold Point.mul
  refine foldl_bits (R := fun (r : Point) k => r.Represents (k • a)) ?_ ?_ hn
  · rw [zero_smul]
    exact zero
  · intro r k b hr
    have double : (r.add r).Represents ((2 * k) • a) := by
      rw [two_mul, add_smul]
      exact hr.add hr
    cases b with
    | false => simpa using double
    | true =>
      simp only [if_true, Bool.toNat_true, add_smul, one_smul]
      exact double.add h

end Point.Represents

def generator : Group where
  x := value base.x
  y := value base.y
  on_curve := by
    have : base.y * base.y - base.x * base.x =
        1 + d * (base.x * base.x) * (base.y * base.y) := by decide +kernel
    have := congrArg value this
    simp only [value_sub, value_add, value_mul, value_one] at this
    linear_combination this

theorem base_represents : base.Represents generator where
  z_ne_zero := by simp [base]
  x_eq := by simp [base, generator]
  y_eq := by simp [base, generator]
  t_eq := by simp [base, generator]

theorem order_smul_generator : order • generator = 0 := by
  have h := base_represents.mul (n := order) (by decide)
  have hx : (base.mul order).x = 0 := by decide +kernel
  have hy : (base.mul order).y = (base.mul order).z := by decide +kernel
  ext
  · have := h.x_eq
    rw [hx, value_zero, eq_comm, mul_eq_zero] at this
    exact this.resolve_right h.z_ne_zero
  · have := h.y_eq
    rw [hy, eq_comm] at this
    exact (mul_eq_right₀ h.z_ne_zero).1 this

theorem ofLittleEndian_toLittleEndian (count n : Nat) :
    ofLittleEndian (toLittleEndian count n) = n % 256 ^ count := by
  induction count generalizing n with
  | zero => simp [toLittleEndian, ofLittleEndian, Nat.mod_one]
  | succ count ih =>
    have tail : toLittleEndian (count + 1) n =
        UInt8.ofNat n :: toLittleEndian count (n / 256) := by
      simp [toLittleEndian, List.range_succ_eq_map, Nat.pow_succ', Nat.div_div_eq_div_mul]
    rw [tail, ofLittleEndian, List.foldr_cons, ← ofLittleEndian, ih, Nat.pow_succ', Nat.mod_mul,
      UInt8.toNat_ofNat']

def encoding (a : Group) : List UInt8 :=
  toLittleEndian 32 (a.y.val + 2 ^ 255 * (a.x.val % 2))

theorem Point.Represents.encode_eq {p : Point} {a : Group} (h : p.Represents a) :
    p.encode = encoding a := by
  have hx : value (p.x * inverse p.z) = a.x := by
    rw [value_mul, value_inverse, h.x_eq, mul_inv_cancel_right₀ h.z_ne_zero]
  have hy : value (p.y * inverse p.z) = a.y := by
    rw [value_mul, value_inverse, h.y_eq, mul_inv_cancel_right₀ h.z_ne_zero]
  rw [encoding, ← hx, ← hy, val_value, val_value]
  rfl

theorem val_neg_mod_two {x : ZMod prime} (h : x ≠ 0) : (-x).val % 2 = 1 - x.val % 2 := by
  have hx : (-x).val = prime - x.val := by rw [ZMod.neg_val, if_neg h]
  have lt := ZMod.val_lt x
  have odd : prime % 2 = 1 := by decide
  omega

theorem even_or_neg {s : Field} {x : ZMod prime} (h : value s ^ 2 = x ^ 2) :
    value (if s.val % 2 = 0 then s else 0 - s) ^ 2 = x ^ 2 ∧
      (if s.val % 2 = 0 then s else 0 - s).val % 2 = 0 := by
  split
  next he => exact ⟨h, he⟩
  next ho =>
    have h0 : value s ≠ 0 := fun h0 => by simp [value_eq_zero.1 h0] at ho
    refine ⟨by rw [value_zero_sub, neg_sq, h], ?_⟩
    rw [← val_value, value_zero_sub, val_neg_mod_two h0, val_value]
    omega

theorem rootOfRatio?_eq {u v : Field} {x : ZMod prime} (hv : value v ≠ 0)
    (hu : value u = x ^ 2 * value v) :
    ∃ r, rootOfRatio? u v = some r ∧ value r ^ 2 = x ^ 2 ∧ r.val % 2 = 0 := by
  -- The check is the number itself up to the sign of a power that squares to one.
  have check : value (v * (u * (v * v * v) * power (u * (v * v * v) * (v * v * v) * v)
      ((prime - 5) / 8) * (u * (v * v * v) * power (u * (v * v * v) * (v * v * v) * v)
      ((prime - 5) / 8)))) = value u * (x * value v ^ 4) ^ (prime / 2) := by
    have e : prime / 2 = 2 * (2 * ((prime - 5) / 8) + 1) := by decide
    have bound : (prime - 5) / 8 < 2 ^ 256 := by decide
    simp only [e, value_mul, value_power _ bound, hu]
    ring
  simp only [rootOfRatio?]
  generalize u * (v * v * v) * power (u * (v * v * v) * (v * v * v) * v) ((prime - 5) / 8) = r
    at check ⊢
  have square {s : Field} (h : value v * value s ^ 2 = value u) : value s ^ 2 = x ^ 2 :=
    mul_left_cancel₀ hv (by rw [h, hu, mul_comm])
  split
  next h =>
    exact ⟨_, rfl, even_or_neg (square (by rw [← h, value_mul, value_mul, sq]))⟩
  next h =>
    have hx : x * value v ^ 4 ≠ 0 := by
      refine mul_ne_zero (fun hx => h (value_injective ?_)) (pow_ne_zero 4 hv)
      rw [check, hu, hx]
      ring
    rcases ZMod.pow_div_two_eq_neg_one_or_one prime hx with hw | hw
    · exact absurd (value_injective (by rw [check, hw, mul_one])) h
    · rw [if_pos (value_injective (by rw [check, hw, value_zero_sub, mul_neg_one]))]
      refine ⟨_, rfl, even_or_neg (square ?_)⟩
      rw [hw, value_mul, value_mul] at check
      rw [value_mul]
      linear_combination value v * value r ^ 2 * rootOfMinusOne_sq - check

theorem decode?_encoding (a : Group) :
    ∃ p, Point.decode? (encoding a) = some p ∧ p.Represents a := by
  have hy := ZMod.val_lt a.y
  have small : prime < 2 ^ 255 := by decide
  have hn : ofLittleEndian (encoding a) = a.y.val + 2 ^ 255 * (a.x.val % 2) := by
    rw [encoding, ofLittleEndian_toLittleEndian]
    omega
  have hlow : (a.y.val + 2 ^ 255 * (a.x.val % 2)) % 2 ^ 255 = a.y.val := by omega
  have hhigh : (a.y.val + 2 ^ 255 * (a.x.val % 2)) / 2 ^ 255 % 2 = a.x.val % 2 := by omega
  have value_y : value (Fin.ofNat prime a.y.val) = a.y := by
    rw [value_ofNat, ZMod.natCast_zmod_val]
  generalize hyf : Fin.ofNat prime a.y.val = y at value_y
  have hu : value (y * y - 1) = a.x ^ 2 * value (d * (y * y) + 1) := by
    simp only [value_sub, value_add, value_mul, value_one, value_y]
    linear_combination a.on_curve
  have hv : value (d * (y * y) + 1) ≠ 0 := by
    intro h
    rw [h, mul_zero] at hu
    simp only [value_sub, value_add, value_mul, value_one, value_y] at h hu
    refine not_isSquare_d ⟨value rootOfMinusOne, ?_⟩
    rw [rootOfMinusOne_sq]
    linear_combination h - value d * hu
  obtain ⟨r, hr, hsq, heven⟩ := rootOfRatio?_eq hv hu
  have hx : value (if a.x.val % 2 = 1 then 0 - r else r) = a.x := by
    rcases sq_eq_sq_iff_eq_or_eq_neg.1 hsq with h | h
    · have : a.x.val % 2 = 0 := by rw [← h, val_value, heven]
      rw [if_neg (by omega), h]
    · by_cases h0 : a.x = 0
      · rw [h0, neg_zero] at h
        rw [h0, apply_ite value, value_zero_sub, h, neg_zero, ite_self]
      · have := val_neg_mod_two h0
        rw [← h, val_value, heven] at this
        rw [if_pos (by omega), value_zero_sub, h, neg_neg]
  have hdecode : Point.decode? (encoding a) =
      some ⟨if a.x.val % 2 = 1 then 0 - r else r, y, 1,
        (if a.x.val % 2 = 1 then 0 - r else r) * y⟩ := by
    simp only [Point.decode?, Nat.pow_eq, hn, hlow, hhigh, hyf, hr]
    rfl
  generalize (if a.x.val % 2 = 1 then 0 - r else r) = x at hx hdecode
  refine ⟨_, hdecode, ⟨?_, ?_, ?_, ?_⟩⟩
  · simp
  · simp [hx]
  · simp [value_y]
  · simp [hx, value_y]

theorem order_pos : 0 < order := by decide

theorem order_lt : order < 2 ^ 256 := by decide

theorem expand_lt (seed : List UInt8) : (expand seed).1 < 2 ^ 256 := by
  simp only [expand, Nat.pow_eq]
  omega

theorem publicKey_eq (seed : List UInt8) :
    publicKey seed = encoding ((expand seed).1 • generator) :=
  (base_represents.mul (expand_lt seed)).encode_eq

def nonce (seed message : List UInt8) : Nat :=
  ofLittleEndian (Sha2.sha512 ((expand seed).2 ++ message)) % order

theorem sign_eq (seed message : List UInt8) :
    sign seed message = (base.mul (nonce seed message)).encode ++
      toLittleEndian 32 ((nonce seed message + challenge (base.mul (nonce seed message)).encode
        (publicKey seed) message * (expand seed).1) % order) := rfl

theorem sum_eq (r k a : Nat) :
    ((r + k * a) % order) • generator + k • -(a • generator) = r • generator := by
  rw [← nsmul_eq_mod_nsmul _ order_smul_generator, add_smul, mul_smul, smul_neg,
    add_neg_cancel_right]

/-- What is checked for a key that is a point. -/
theorem verify_iff {key message sum : List UInt8} {p : Point} (h : Point.decode? key = some p) :
    verify key message sum = true ↔ sum.length = 64 ∧ ofLittleEndian (sum.drop 32) < order ∧
      ((base.mul (ofLittleEndian (sum.drop 32))).add
        (p.neg.mul (challenge (sum.take 32) key message))).encode = sum.take 32 := by
  unfold verify
  rw [h]
  simp only [Bool.and_eq_true, beq_iff_eq, decide_eq_true_eq, and_assoc]

/-- A signature made with the private key of a seed passes for the seed's public key. -/
theorem verify_sign (seed message : List UInt8) :
    verify (publicKey seed) message (sign seed message) = true := by
  obtain ⟨key, hkey, rep⟩ := decode?_encoding ((expand seed).1 • generator)
  rw [← publicKey_eq] at hkey
  have hlength := length_sign seed message
  have hsign := sign_eq seed message
  have r_lt : nonce seed message < 2 ^ 256 := (Nat.mod_lt _ order_pos).trans order_lt
  have point_eq := (base_represents.mul r_lt).encode_eq
  generalize nonce seed message = r at hsign r_lt point_eq
  have length_point : (base.mul r).encode.length = 32 := length_toLittleEndian 32 _
  have k_lt : challenge (base.mul r).encode (publicKey seed) message < 2 ^ 256 :=
    (Nat.mod_lt _ order_pos).trans order_lt
  have htake : (sign seed message).take 32 = (base.mul r).encode := by
    rw [hsign, List.take_left' length_point]
  have hsum := sum_eq r (challenge (base.mul r).encode (publicKey seed) message) (expand seed).1
  have s_lt := Nat.mod_lt (r + challenge (base.mul r).encode (publicKey seed) message *
    (expand seed).1) order_pos
  generalize (r + challenge (base.mul r).encode (publicKey seed) message * (expand seed).1) % order
    = s at hsign hsum s_lt
  have hdrop : ofLittleEndian ((sign seed message).drop 32) = s := by
    rw [hsign, List.drop_left' length_point, ofLittleEndian_toLittleEndian]
    exact Nat.mod_eq_of_lt (s_lt.trans order_lt)
  have hencode := ((base_represents.mul (s_lt.trans order_lt)).add (rep.neg.mul k_lt)).encode_eq
  rw [hsum, ← point_eq] at hencode
  rw [verify_iff hkey, htake, hdrop]
  exact ⟨hlength, s_lt, hencode⟩

end Parley.Ed25519
