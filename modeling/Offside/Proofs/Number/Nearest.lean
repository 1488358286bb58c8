import Offside.Number.Shortest
import Offside.Proofs.Number.Overflow

/-! Which values are stored as a given number.

A number is stored with a mantissa of 53 bits, or fewer if its exponent is the least. What lies between
the midpoints to its neighbours is rounded to it, and the midpoints too if the mantissa is even. The
shortest decimal of a number is one of these values, so it is stored as that number again. -/
namespace Offside.Number
open Float.Model Float.Model.UnpackedFloat

/-- The mantissa and the exponent that a positive number is stored with. -/
structure Stored (m : ℕ) (e : ℤ) : Prop where
  pos : 0 < m
  lt : m < 2 ^ 53
  least : -1074 ≤ e
  largest : e ≤ 971
  normal : -1074 < e → 2 ^ 52 ≤ m

/-- How far below a number the midpoint to the one before it lies, in units of the mantissa. Below a power
of two the numbers lie twice as close, unless the exponent is the least. -/
def downTo (m : ℕ) (e : ℤ) : ℚ := if m = 2 ^ 52 ∧ -1074 < e then 1 / 4 else 1 / 2

/-- Between the midpoints to the neighbours of a number. -/
structure Near (q : ℚ) (m : ℕ) (e : ℤ) : Prop where
  low : (m - downTo m e) * 2 ^ e ≤ q
  high : q ≤ (m + 1 / 2) * 2 ^ e
  open_low : m % 2 = 1 → (m - 1 / 2) * 2 ^ e < q
  open_high : m % 2 = 1 → q < (m + 1 / 2) * 2 ^ e

/-! ### Rounding to the nearest -/

/-- A whole number is what is rounded to it. -/
theorem Truncated.rounded_eq {x : ℚ} {em : ExtendedMantissa} {k : ℕ} (h : Truncated x em)
    (hlow : (k : ℚ) - 1 / 2 ≤ x) (hhigh : x ≤ k + 1 / 2)
    (hodd : k % 2 = 1 → (k : ℚ) - 1 / 2 < x ∧ x < k + 1 / 2) : em.roundedMantissa = k := by
  obtain ⟨rest, rfl, hrest, hlt, hsticky⟩ := h
  obtain ⟨m, round, sticky⟩ := em
  rw [roundedMantissa_eq]
  dsimp only at hlow hhigh hodd hsticky ⊢
  cases round with
  | false =>
    rw [half, if_neg Bool.false_ne_true, add_zero] at hlow hhigh
    have hle : (k : ℚ) < m + 1 := by linarith
    have hge : (m : ℚ) < k + 1 := by linarith
    norm_cast at hle hge
    simp
    omega
  | true =>
    rw [half, if_pos rfl] at hlow hhigh hodd
    have hle : (k : ℚ) < m + 2 := by linarith
    norm_cast at hle
    cases sticky with
    | true =>
      have hpos : 0 < rest := hsticky.mp rfl
      have hge : (m : ℚ) < k := by linarith
      norm_cast at hge
      simp
      omega
    | false =>
      -- Exactly half way, so the even one of the two is meant.
      obtain rfl : rest = 0 := le_antisymm (not_lt.mp fun hpos => Bool.false_ne_true (hsticky.mpr hpos)) hrest
      have hge : (m : ℚ) < k + 1 := by linarith
      norm_cast at hge
      obtain rfl | rfl : k = m ∨ k = m + 1 := by omega
      · have heven : k % 2 = 0 := by
          by_contra hne
          have := (hodd (by omega)).2
          linarith
        simp [heven]
      · have heven : (m + 1) % 2 = 0 := by
          by_contra hne
          have := (hodd (by omega)).1
          push_cast at this
          linarith
        simp
        omega

theorem downTo_le (m : ℕ) (e : ℤ) : downTo m e ≤ 1 / 2 := by
  unfold downTo
  split <;> norm_num

theorem downTo_pos (m : ℕ) (e : ℤ) : 0 < downTo m e := by
  unfold downTo
  split <;> norm_num

theorem downTo_of_odd {m : ℕ} {e : ℤ} (h : m % 2 = 1) : downTo m e = 1 / 2 := by
  apply if_neg
  rintro ⟨rfl, -⟩
  norm_num at h

theorem Near.of_lt {q : ℚ} {m : ℕ} {e : ℤ} (hlow : (m - downTo m e) * 2 ^ e < q) (hhigh : q < (m + 1 / 2) * 2 ^ e) :
    Near q m e :=
  ⟨hlow.le, hhigh.le, fun hodd => downTo_of_odd (e := e) hodd ▸ hlow, fun _ => hhigh⟩

/-- The exponent that a value near a number is rounded with is that of the number, or the one below it if
the number is the least with its own. -/
theorem Near.exponent {y : ℚ} {m : ℕ} {e t : ℤ} (hq : Near (y * 2 ^ t) m e) (hm : Stored m e) (hlt : y < 2 ^ 53)
    (hleast : -1074 ≤ t) (hnormal : -1074 < t → 2 ^ 52 ≤ y) : t = e ∨ t + 1 = e ∧ m = 2 ^ 52 := by
  have hunit : (0 : ℚ) < 2 ^ e := zpow_pos two_pos _
  have hscale : (0 : ℚ) < 2 ^ t := zpow_pos two_pos _
  have hmlt : (m : ℚ) + 1 ≤ 2 ^ 53 := by exact_mod_cast hm.lt
  have hlow := hq.low
  have hhigh := hq.high
  have hdown := downTo_le m e
  rcases Int.lt_trichotomy t e with hbelow | rfl | habove
  · right
    have hmge : (2 : ℚ) ^ 52 ≤ m := by exact_mod_cast hm.normal (by omega)
    -- the value is below `2 ^ (53 + t)` and at least half a unit below `m * 2 ^ e`
    have hvalue : ((m : ℚ) - 1 / 2) * 2 ^ e < 2 ^ 53 * 2 ^ t :=
      calc ((m : ℚ) - 1 / 2) * 2 ^ e ≤ (m - downTo m e) * 2 ^ e :=
            mul_le_mul_of_nonneg_right (by linarith) hunit.le
        _ ≤ y * 2 ^ t := hlow
        _ < 2 ^ 53 * 2 ^ t := mul_lt_mul_of_pos_right hlt hscale
    have hnext : t + 1 = e := by
      by_contra hne
      have hpow : (2 : ℚ) ^ t * 2 ^ 2 ≤ 2 ^ e := by
        rw [← zpow_natCast, ← zpow_add₀ two_ne_zero]
        exact zpow_le_zpow_right₀ one_le_two (by push_cast; omega)
      generalize (2 : ℚ) ^ t = scale at *
      generalize (2 : ℚ) ^ e = unit at *
      nlinarith
    refine ⟨hnext, ?_⟩
    have hpow : (2 : ℚ) ^ e = 2 ^ t * 2 := by rw [← hnext, zpow_add_one₀ two_ne_zero]
    have hmle : (m : ℚ) < 2 ^ 52 + 1 := by
      rw [hpow] at hvalue
      generalize (2 : ℚ) ^ t = scale at *
      nlinarith
    have hge := hm.normal (by omega)
    norm_cast at hmle
    omega
  · exact .inl rfl
  · exfalso
    have hyge := hnormal (by have := hm.least; omega)
    have hpow : (2 : ℚ) ^ e * 2 ≤ 2 ^ t := by
      rw [← zpow_add_one₀ two_ne_zero]
      exact zpow_le_zpow_right₀ one_le_two (by omega)
    generalize (2 : ℚ) ^ t = scale at *
    generalize (2 : ℚ) ^ e = unit at *
    nlinarith

/-- What lies near a number is rounded to it. -/
theorem Rounded.eq_finite {s : Sign} {q : ℚ} {u : UnpackedFloat} {m : ℕ} {e : ℤ} (hu : Rounded s q u)
    (hm : Stored m e) (hq : Near q m e) : u = .finite s m e hm.pos := by
  obtain ⟨x, m', e', a, y, em, t, h, rfl, rfl⟩ := hu
  have hem : em.mantissa < 2 ^ 53 := by exact_mod_cast h.truncated.le.trans_lt h.lt
  rw [roundWithAccuracy_eq h.shift hem h.least]
  rw [h.value] at hq
  have hscale : (0 : ℚ) < 2 ^ t := zpow_pos two_pos _
  rcases hq.exponent hm h.lt h.least h.normal with rfl | ⟨rfl, rfl⟩
  · have hdown := downTo_le m t
    have hrounded : em.roundedMantissa = m := by
      apply h.truncated.rounded_eq
      · have hlow := le_of_mul_le_mul_right hq.low hscale
        linarith
      · exact le_of_mul_le_mul_right hq.high hscale
      · intro hodd
        exact ⟨lt_of_mul_lt_mul_right (hq.open_low hodd) hscale.le,
          lt_of_mul_lt_mul_right (hq.open_high hodd) hscale.le⟩
    subst hrounded
    rw [dif_neg hm.pos.ne', if_pos hm.lt]
  · -- Rounded up to the next power of two.
    have hdown : downTo (2 ^ 52) (t + 1) = 1 / 4 := if_pos ⟨rfl, by have := h.least; omega⟩
    have hlow := hq.low
    rw [hdown, zpow_add_one₀ two_ne_zero, mul_comm ((2 : ℚ) ^ t) 2, ← mul_assoc] at hlow
    have hhalf := le_of_mul_le_mul_right hlow hscale
    have hge : 2 ^ 53 ≤ em.roundedMantissa :=
      (h.truncated.le_rounded_iff (by norm_num)).mpr (by push_cast at hhalf ⊢; linarith)
    rw [dif_neg (by omega), if_neg (by omega)]

theorem ten_pow_le : (10 : ℚ) ^ (-330 : ℤ) ≤ 1 / 2 * 2 ^ (-1074 : ℤ) := by
  have hpow : (2 : ℚ) ^ 1075 ≤ 10 ^ 330 :=
    calc (2 : ℚ) ^ 1075 ≤ (2 ^ 93) ^ 11 * 2 ^ 52 := by
          rw [← pow_mul, ← pow_add]
      _ ≤ (10 ^ 28) ^ 11 * 10 ^ 22 :=
        mul_le_mul (pow_le_pow_left₀ (by norm_num) (by norm_num) _) (by norm_num) (by norm_num) (by norm_num)
      _ = 10 ^ 330 := by rw [← pow_mul, ← pow_add]
  have hhalf : (1 : ℚ) / 2 * 2 ^ (-1074 : ℤ) = (2 ^ 1075)⁻¹ := by
    rw [show (-1074 : ℤ) = -(1074 : ℕ) by norm_num, zpow_neg, zpow_natCast, one_div, ← mul_inv, ← pow_succ']
  rw [hhalf, show (-330 : ℤ) = -(330 : ℕ) by norm_num, zpow_neg, zpow_natCast]
  exact inv_anti₀ (pow_pos two_pos _) hpow

/-- What lies near a number is stored as it. -/
theorem StoredAs.eq_finite {q : ℚ} {f : Float} {m : ℕ} {e : ℤ} (h : StoredAs q f) (hm : Stored m e)
    (hq : Near q m e) : f.toModel = Float.Model.pack (.finite .positive m e hm.pos) := by
  cases h with
  | rounded hmodel hrounded => rw [hmodel, hrounded.eq_finite hm hq]
  | huge _ hlarge =>
    exfalso
    have hmlt : (m : ℚ) + 1 ≤ 2 ^ 53 := by exact_mod_cast hm.lt
    have hlt : q < 2 ^ 1024 :=
      calc q ≤ (m + 1 / 2) * 2 ^ e := hq.high
        _ < 2 ^ 53 * 2 ^ e := mul_lt_mul_of_pos_right (by linarith) (zpow_pos two_pos _)
        _ ≤ 2 ^ 53 * 2 ^ (971 : ℤ) :=
          mul_le_mul_of_nonneg_left (zpow_le_zpow_right₀ one_le_two hm.largest) (by norm_num)
        _ = 2 ^ 1024 := by
          rw [show (971 : ℤ) = (971 : ℕ) by norm_num, zpow_natCast, ← pow_add]
    exact absurd (two_pow_le.trans hlarge) (not_le.mpr hlt)
  | tiny _ hsmall =>
    exfalso
    have hpos : (1 : ℚ) ≤ m := by exact_mod_cast hm.pos
    have hdown := downTo_le m e
    have hge : 1 / 2 * (2 : ℚ) ^ (-1074 : ℤ) ≤ q :=
      calc 1 / 2 * (2 : ℚ) ^ (-1074 : ℤ) ≤ 1 / 2 * 2 ^ e :=
            mul_le_mul_of_nonneg_left (zpow_le_zpow_right₀ one_le_two hm.least) (by norm_num)
        _ ≤ (m - downTo m e) * 2 ^ e := mul_le_mul_of_nonneg_right (by linarith) (zpow_nonneg zero_le_two _)
        _ ≤ q := hq.low
    exact absurd (ten_pow_le.trans hge) (not_le.mpr hsmall)

/-! ### The bits of a number -/

theorem toNat_packComponents (s : Sign) (e : BitVec 11) (m : BitVec 52) :
    (packComponents .binary64 s e m).toNat = s.toBitVec.toNat * 2 ^ 63 + e.toNat * 2 ^ 52 + m.toNat := by
  have hm := m.isLt
  have he := e.isLt
  show (s.toBitVec ++ e ++ m).toNat = _
  rw [BitVec.toNat_append, BitVec.toNat_append, ← Nat.shiftLeft_add_eq_or_of_lt hm,
    ← Nat.shiftLeft_add_eq_or_of_lt he]
  simp only [Nat.shiftLeft_eq]
  ring

theorem toNat_unpackExponent (b : BitVec 64) :
    (@unpackExponent .binary64 b).toNat = b.toNat / 2 ^ 52 % 2 ^ 11 := by
  show (BitVec.cast _ (b.extractLsb 62 52)).toNat = _
  rw [BitVec.toNat_cast, BitVec.extractLsb_toNat, Nat.shiftRight_eq_div_pow]

/-- An exponent of all ones is left to infinities and to what is no number. -/
theorem isFinite_iff {f : Float} : f.isFinite = true ↔ f.toBits.toNat / 2 ^ 52 % 2 ^ 11 ≠ 2047 := by
  have hexponent : @unpackExponent .binary64 f.toBits.toBitVec = -1#11 ↔
      f.toBits.toNat / 2 ^ 52 % 2 ^ 11 = 2047 := by
    rw [← BitVec.toNat_inj, toNat_unpackExponent]
    rfl
  show (UnpackedFloat.unpack .binary64 f.toBits.toBitVec).isFinite = true ↔ _
  rw [ne_eq, ← hexponent]
  rcases unpack_cases f.toBits.toBitVec with ⟨hones, -, s, h⟩ | ⟨hones, -, h⟩ |
    ⟨hones, ⟨s, h⟩ | ⟨s, m, e, hm, h⟩⟩ <;> rw [h]
  · exact iff_of_false Bool.false_ne_true (not_not_intro hones)
  · exact iff_of_false Bool.false_ne_true (not_not_intro hones)
  · exact iff_of_true rfl hones
  · exact iff_of_true rfl hones

def signOf (negative : Bool) : Sign := if negative then .negative else .positive

theorem toModel_eq_of_toNat {f : Float} {u : UnpackedFloat}
    (h : f.toBits.toNat = (UnpackedFloat.pack .binary64 u).toNat) : f.toModel = Float.Model.pack u := by
  have hbits : f.toModel.toBits = (Float.Model.pack u).toBits := UInt64.toNat_inj.mp h
  generalize f.toModel = a at hbits
  generalize Float.Model.pack u = b at hbits
  cases a
  cases b
  cases hbits
  rfl

theorem toNat_signOf (bit : ℕ) (h : bit < 2) : (signOf (bit == 1)).toBitVec.toNat = bit := by
  obtain rfl | rfl : bit = 0 ∨ bit = 1 := by omega
  all_goals rfl

theorem log2_lt_of_lt {m : ℕ} (hpos : 0 < m) (hm : m < 2 ^ 52) : m.log2 < 52 := (Nat.log2_lt hpos.ne').mpr hm

theorem ofFloat_subnormal {f : Float} (h : f.toBits.toNat / 2 ^ 52 % 2 ^ 11 = 0) :
    Binary.ofFloat f = ⟨f.toBits.toNat / 2 ^ 63 == 1, f.toBits.toNat % 2 ^ 52, -1074⟩ := if_pos h

theorem ofFloat_normal {f : Float} {biased : ℕ} (h : f.toBits.toNat / 2 ^ 52 % 2 ^ 11 = biased + 1) :
    Binary.ofFloat f = ⟨f.toBits.toNat / 2 ^ 63 == 1, f.toBits.toNat % 2 ^ 52 + 2 ^ 52, -1074 + biased⟩ := by
  refine (if_neg (h ▸ Nat.succ_ne_zero biased)).trans ?_
  show (⟨_, _, -1074 + ((f.toBits.toNat / 2 ^ 52 % 2 ^ 11 - 1 : ℕ) : ℤ)⟩ : Binary) = _
  rw [h]
  rfl

/-- A finite number is stored with its sign, its mantissa and its exponent. -/
theorem toModel_of_isFinite {f : Float} {b : Binary} (h : f.isFinite) (hb : Binary.ofFloat f = b) :
    b.mantissa = 0 ∧ f.toModel = Float.Model.pack (.zero (signOf b.negative)) ∨
      ∃ hm : Stored b.mantissa b.exponent,
        f.toModel = Float.Model.pack (.finite (signOf b.negative) b.mantissa b.exponent hm.pos) := by
  have hones := isFinite_iff.mp h
  have hbits : f.toBits.toNat < 2 ^ 64 := f.toBits.toNat_lt
  have hsign := toNat_signOf (f.toBits.toNat / 2 ^ 63) (by omega)
  have hlt : f.toBits.toNat % 2 ^ 52 < 2 ^ 52 := Nat.mod_lt _ (by norm_num)
  rcases hbiased : f.toBits.toNat / 2 ^ 52 % 2 ^ 11 with _ | biased
  · rw [ofFloat_subnormal hbiased] at hb
    subst hb
    rcases Nat.eq_zero_or_pos (f.toBits.toNat % 2 ^ 52) with hfraction | hfraction
    · refine .inl ⟨hfraction, toModel_eq_of_toNat ?_⟩
      show _ = (packComponents .binary64 _ 0#11 0#52).toNat
      rw [toNat_packComponents, hsign, BitVec.toNat_ofNat, BitVec.toNat_ofNat]
      omega
    · have hstored : Stored (f.toBits.toNat % 2 ^ 52) (-1074) :=
        ⟨hfraction, by omega, le_rfl, by decide, fun hnormal => absurd hnormal (lt_irrefl _)⟩
      refine .inr ⟨hstored, ?_⟩
      have hlog := log2_lt_of_lt hfraction hlt
      apply toModel_eq_of_toNat
      unfold UnpackedFloat.pack
      dsimp only
      rw [if_neg (by decide), if_neg (by show ¬ _ + 1 = 53; omega), toNat_packComponents, hsign,
        BitVec.toNat_ofNat, BitVec.toNat_ofNat, Nat.mod_mod]
      omega
  · rw [ofFloat_normal hbiased] at hb
    subst hb
    have hlog : (f.toBits.toNat % 2 ^ 52 + 2 ^ 52).log2 = 52 := (Nat.log2_eq_iff (by omega)).mpr (by omega)
    have hstored : Stored (f.toBits.toNat % 2 ^ 52 + 2 ^ 52) (-1074 + biased) :=
      ⟨by omega, by omega, by omega, by omega, fun _ => by omega⟩
    have hexponent : (-1074 + (biased : ℤ) + (Format.binary64.exponentBias : ℤ) + (52 : ℕ)).toNat = biased + 1 := by
      show (-1074 + (biased : ℤ) + 1023 + 52).toNat = biased + 1
      omega
    refine .inr ⟨hstored, toModel_eq_of_toNat ?_⟩
    unfold UnpackedFloat.pack
    dsimp only
    rw [hexponent, if_neg (by omega), hlog, if_pos (by decide), toNat_packComponents, hsign, BitVec.toNat_ofNat,
      BitVec.toNat_ofNat]
    omega

/-! ### The shortest decimal -/

theorem zpow_eq_div {b : ℚ} (hb : b ≠ 0) (k : ℤ) : b ^ k = b ^ k.toNat / b ^ (-k).toNat := by
  rw [← zpow_natCast, ← zpow_natCast, ← zpow_sub₀ hb]
  congr 1
  omega

namespace Neighbourhood

variable {b : Binary} {k : ℤ} {n : ℕ}

/-- Both ends of an interval and the value, in units of `10 ^ k`, over their denominator. -/
theorem scaled_div (a : ℕ) (e k : ℤ) :
    ((a * Nat.pow 2 e.toNat * Nat.pow 10 (-k).toNat : ℕ) : ℚ) =
      (4 * Nat.pow 2 (-e).toNat * Nat.pow 10 k.toNat : ℕ) / 10 ^ k * (a / 4 * 2 ^ e) := by
  simp only [Nat.pow_eq]
  rw [zpow_eq_div two_ne_zero e, zpow_eq_div (by norm_num) k]
  push_cast
  field_simp

theorem denominator_pos (b : Binary) (k : ℤ) : 0 < ((ofBinary b).scale k).denominator := by
  have hpos : 0 < 4 * 2 ^ (-b.exponent).toNat * 10 ^ k.toNat := by positivity
  exact hpos

/-- How many of the denominator's parts a unit is. -/
def unit (b : Binary) (k : ℤ) : ℚ := ((ofBinary b).scale k).denominator / 10 ^ k

theorem unit_pos (b : Binary) (k : ℤ) : 0 < unit b k :=
  div_pos (by exact_mod_cast denominator_pos b k) (zpow_pos (by norm_num) _)

theorem low_eq (hm : 0 < b.mantissa) (k : ℤ) :
    (((ofBinary b).scale k).low : ℚ) = unit b k * ((b.mantissa - downTo b.mantissa b.exponent) * 2 ^ b.exponent) := by
  refine (scaled_div _ b.exponent k).trans (congrArg (_ * ·) (congrArg (· * _) ?_))
  rw [downTo]
  by_cases hpower : b.mantissa = Nat.pow 2 52 ∧ Binary.minExponent < b.exponent
  · rw [if_pos hpower, if_pos (show b.mantissa = 2 ^ 52 ∧ -1074 < b.exponent from hpower), Nat.cast_sub (by omega)]
    push_cast
    ring
  · rw [if_neg hpower, if_neg (show ¬ (b.mantissa = 2 ^ 52 ∧ -1074 < b.exponent) from hpower),
      Nat.cast_sub (by omega)]
    push_cast
    ring

theorem value_eq (b : Binary) (k : ℤ) :
    (((ofBinary b).scale k).value : ℚ) = unit b k * (b.mantissa * 2 ^ b.exponent) := by
  refine (scaled_div _ b.exponent k).trans (congrArg (_ * ·) (congrArg (· * _) ?_))
  push_cast
  ring

theorem high_eq (b : Binary) (k : ℤ) :
    (((ofBinary b).scale k).high : ℚ) = unit b k * ((b.mantissa + 1 / 2) * 2 ^ b.exponent) := by
  refine (scaled_div _ b.exponent k).trans (congrArg (_ * ·) (congrArg (· * _) ?_))
  push_cast
  ring

theorem whole_eq (b : Binary) (k : ℤ) (n : ℕ) :
    ((n * ((ofBinary b).scale k).denominator : ℕ) : ℚ) = unit b k * (n * 10 ^ k) := by
  have hpow : (10 : ℚ) ^ k ≠ 0 := zpow_ne_zero _ (by norm_num)
  rw [unit, Nat.cast_mul]
  field_simp

/-- The whole numbers in an interval are the decimals near the number. -/
theorem holds_scale_iff (hm : 0 < b.mantissa) :
    ((ofBinary b).scale k).holds n = true ↔ Near (n * 10 ^ k) b.mantissa b.exponent := by
  have hunit := unit_pos b k
  have hclosed : ((ofBinary b).scale k).closed = (b.mantissa % 2 == 0) := rfl
  unfold holds
  dsimp only
  rw [hclosed]
  by_cases heven : b.mantissa % 2 = 0
  · rw [if_pos (beq_iff_eq.mpr heven), Bool.and_eq_true, decide_eq_true_eq, decide_eq_true_eq,
      ← Nat.cast_le (α := ℚ), ← Nat.cast_le (α := ℚ), low_eq hm, high_eq, whole_eq, mul_le_mul_iff_right₀ hunit,
      mul_le_mul_iff_right₀ hunit]
    have hnot : b.mantissa % 2 ≠ 1 := by omega
    exact ⟨fun h => ⟨h.1, h.2, fun hodd => absurd hodd hnot, fun hodd => absurd hodd hnot⟩, fun h => ⟨h.low, h.high⟩⟩
  · have hodd : b.mantissa % 2 = 1 := by omega
    rw [if_neg (by simpa using heven), Bool.and_eq_true, decide_eq_true_eq, decide_eq_true_eq,
      ← Nat.cast_lt (α := ℚ), ← Nat.cast_lt (α := ℚ), low_eq hm, high_eq, whole_eq, mul_lt_mul_iff_right₀ hunit,
      mul_lt_mul_iff_right₀ hunit]
    refine ⟨fun h => .of_lt h.1 h.2, fun h => ⟨?_, h.open_high hodd⟩⟩
    rw [downTo_of_odd hodd]
    exact h.open_low hodd

theorem holds_of_nearest? {v : Neighbourhood} (h : v.nearest? = some n) : v.holds n = true := by
  unfold nearest? at h
  dsimp only at h
  split at h
  case h_1 hbelow habove =>
    split at h <;> cases h
    · exact hbelow
    · exact habove
  case h_2 hbelow habove =>
    cases h
    exact hbelow
  case h_3 hbelow habove =>
    cases h
    exact habove
  case h_4 => cases h

theorem isSome_nearest? {v : Neighbourhood}
    (h : v.holds (v.value / v.denominator) = true ∨ v.holds (v.value / v.denominator + 1) = true) :
    v.nearest?.isSome := by
  unfold nearest?
  dsimp only
  rcases h with h | h <;> rw [h] <;> split <;> simp_all

/-! ### Seventeen digits are enough -/

theorem le_tens {numerator denominator bound : ℕ} (h : denominator ≤ numerator * 10 ^ bound) :
    denominator ≤ numerator * 10 ^ tens numerator denominator bound := by
  induction bound generalizing numerator with
  | zero => exact h
  | succ bound ih =>
    unfold tens
    split
    case isTrue hle => rwa [pow_zero, mul_one]
    case isFalse =>
      have hnext := @ih (10 * numerator) (by rw [pow_succ] at h; linarith)
      rw [pow_succ]
      linarith

theorem value_eq_mul (b : Binary) :
    ((ofBinary b).value : ℚ) = (ofBinary b).denominator * (b.mantissa * 2 ^ b.exponent) := by
  simp only [ofBinary, Nat.pow_eq]
  rw [zpow_eq_div two_ne_zero]
  push_cast
  field_simp

/-- The first digit of a number is where its magnitude says, or before it. -/
theorem pow_magnitude_le (hm : 0 < b.mantissa) :
    (10 : ℚ) ^ (ofBinary b).magnitude ≤ b.mantissa * 2 ^ b.exponent := by
  have hvalue := value_eq_mul b
  have hpos : 0 < (ofBinary b).value := by
    have h : 0 < 4 * b.mantissa * 2 ^ b.exponent.toNat := by positivity
    exact h
  have hden : 0 < (ofBinary b).denominator := by
    have h : 0 < 4 * 2 ^ (-b.exponent).toNat := by positivity
    exact h
  have hden' : (0 : ℚ) < (ofBinary b).denominator := by exact_mod_cast hden
  rw [← mul_le_mul_iff_right₀ hden', ← hvalue]
  unfold magnitude
  generalize (ofBinary b).value = value at *
  generalize (ofBinary b).denominator = denominator at *
  split
  case isTrue hle =>
    have hdigits := Decimal.pow_length_le (Nat.div_pos hle hden).ne'
    have hwhole := (Nat.mul_le_mul_left denominator hdigits).trans (Nat.mul_div_le value denominator)
    rw [zpow_natCast]
    exact_mod_cast hwhole
  case isFalse =>
    have hbound : denominator ≤ value * 10 ^ (denominator.log2 + 1) :=
      calc denominator ≤ 2 ^ (denominator.log2 + 1) := Nat.lt_log2_self.le
        _ ≤ 10 ^ (denominator.log2 + 1) := Nat.pow_le_pow_left (by norm_num) _
        _ ≤ value * 10 ^ (denominator.log2 + 1) := Nat.le_mul_of_pos_left _ hpos
    have htens : (denominator : ℚ) ≤ value * 10 ^ tens value denominator (denominator.log2 + 1) := by
      exact_mod_cast le_tens hbound
    rw [zpow_neg, zpow_natCast, ← div_eq_mul_inv, div_le_iff₀ (by positivity)]
    exact htens

/-- With seventeen digits, decimals are less than half a unit and the way down together apart. -/
theorem step_seventeen_lt (hm : Stored b.mantissa b.exponent) :
    (10 : ℚ) ^ ((ofBinary b).magnitude - 16) < (1 / 2 + downTo b.mantissa b.exponent) * 2 ^ b.exponent := by
  obtain ⟨k, hk⟩ : ∃ k, k = (ofBinary b).magnitude - 16 := ⟨_, rfl⟩
  rw [← hk]
  have htwo : (0 : ℚ) < 2 ^ b.exponent := zpow_pos two_pos _
  have hmpos : (1 : ℚ) ≤ b.mantissa := by exact_mod_cast hm.pos
  have hstep : (10 : ℚ) ^ k * 10 ^ 16 ≤ b.mantissa * 2 ^ b.exponent := by
    have hpow := pow_magnitude_le hm.pos
    rwa [show (ofBinary b).magnitude = k + (16 : ℕ) by push_cast; omega, zpow_add₀ (by norm_num), zpow_natCast] at hpow
  unfold downTo
  split
  case isTrue hpower =>
    rw [hpower.1] at hstep
    push_cast at hstep
    generalize (2 : ℚ) ^ b.exponent = scale at *
    linarith
  case isFalse =>
    have hlt : (b.mantissa : ℚ) < 2 ^ 53 := by exact_mod_cast hm.lt
    have hvalue := mul_lt_mul_of_pos_right hlt htwo
    generalize (2 : ℚ) ^ b.exponent = scale at *
    linarith

/-- A number lies between two decimals that are a step apart. -/
theorem between_scale (b : Binary) (k : ℤ) :
    ((((ofBinary b).scale k).value / ((ofBinary b).scale k).denominator : ℕ) : ℚ) * 10 ^ k ≤
      b.mantissa * 2 ^ b.exponent ∧
    b.mantissa * 2 ^ b.exponent <
      ((((ofBinary b).scale k).value / ((ofBinary b).scale k).denominator + 1 : ℕ) : ℚ) * 10 ^ k := by
  have hunit := unit_pos b k
  constructor
  · have hle := Nat.div_mul_le_self ((ofBinary b).scale k).value ((ofBinary b).scale k).denominator
    rwa [← Nat.cast_le (α := ℚ), whole_eq, value_eq, mul_le_mul_iff_right₀ hunit] at hle
  · have hlt := Nat.lt_div_mul_add (denominator_pos b k) (a := ((ofBinary b).scale k).value)
    rwa [← Nat.succ_mul, ← Nat.cast_lt (α := ℚ), whole_eq, value_eq, mul_lt_mul_iff_right₀ hunit] at hlt

/-- Of the two decimals with seventeen digits around a number, one at least is near it. -/
theorem isSome_seventeen (hm : Stored b.mantissa b.exponent) :
    ((ofBinary b).scale ((ofBinary b).magnitude - 16)).nearest?.isSome := by
  have hsmall := step_seventeen_lt hm
  generalize (ofBinary b).magnitude - 16 = k at hsmall ⊢
  apply isSome_nearest?
  rw [holds_scale_iff hm.pos, holds_scale_iff hm.pos]
  have htwo : (0 : ℚ) < 2 ^ b.exponent := zpow_pos two_pos _
  obtain ⟨hbelow, habove⟩ := between_scale b k
  have hdown := mul_pos (downTo_pos b.mantissa b.exponent) htwo
  generalize ((ofBinary b).scale k).value / ((ofBinary b).scale k).denominator = n at *
  rw [add_mul] at hsmall
  rw [Nat.cast_add, Nat.cast_one, add_mul, one_mul] at habove ⊢
  by_cases hclose : b.mantissa * 2 ^ b.exponent - n * 10 ^ k < downTo b.mantissa b.exponent * 2 ^ b.exponent
  · left
    apply Near.of_lt
    · rw [sub_mul]
      linarith
    · rw [add_mul]
      linarith
  · right
    apply Near.of_lt
    · rw [sub_mul]
      linarith
    · rw [add_mul]
      linarith

end Neighbourhood

theorem Decimal.toRat_trim (d : Decimal) : d.trim.toRat = d.toRat := by
  unfold Decimal.trim
  split
  case isTrue hzero =>
    have hdigits : (d.digits : ℚ) = 10 * (d.digits / 10 : ℕ) := by
      exact_mod_cast (Nat.mul_div_cancel' (Nat.dvd_of_mod_eq_zero hzero)).symm
    rw [Decimal.toRat, Decimal.toRat, zpow_add_one₀ (by norm_num), hdigits]
    ring
  case isFalse => rfl

/-- The shortest decimal of a number lies near it. -/
theorem Binary.near_shortest {b : Binary} (hm : Stored b.mantissa b.exponent) :
    Near b.shortest.toRat b.mantissa b.exponent := by
  unfold Binary.shortest
  dsimp only
  rw [Decimal.toRat_trim]
  generalize hfound : List.findSome? _ _ = found
  cases found with
  | none =>
    have hnone := List.findSome?_eq_none_iff.mp hfound 16 (by simp)
    have hsome := Neighbourhood.isSome_seventeen hm
    rw [Option.map_eq_none_iff] at hnone
    rw [Nat.cast_ofNat] at hnone
    rw [hnone] at hsome
    cases hsome
  | some d =>
    obtain ⟨count, -, hcount⟩ := List.exists_of_findSome?_eq_some hfound
    obtain ⟨digits, hdigits, rfl⟩ := Option.map_eq_some_iff.mp hcount
    exact (Neighbourhood.holds_scale_iff hm.pos).mp (Neighbourhood.holds_of_nearest? hdigits)

end Offside.Number
