import Offside.Number.Basic
import Offside.Proofs.Number.Rounding

/-! Which decimals have no number nearest to them.

The number nearest to a decimal is computed as a product or a quotient of two whole numbers, rounded
once, unless the exponent alone decides. So the number nearest to a decimal is an infinity exactly if the
decimal reaches `limit`. -/
namespace Offside.Number
open Float.Model Float.Model.UnpackedFloat

/-! ### Products and quotients -/

/-- A product is rounded once, provided that it has enough bits. -/
theorem rounded_mul (s₁ s₂ : Sign) {m₁ m₂ : ℕ} {e₁ e₂ : ℤ} {h₁ : 0 < m₁} {h₂ : 0 < m₂} (hbits : 52 ≤ m₁.log2) :
    Rounded (s₁ * s₂) ((m₁ * 2 ^ e₁) * (m₂ * 2 ^ e₂))
      (UnpackedFloat.mul .binary64 (.finite s₁ m₁ e₁ h₁) (.finite s₂ m₂ e₂ h₂)) := by
  have hlog : m₁.log2 ≤ (m₁ * m₂).log2 := by
    rw [Nat.le_log2 (Nat.mul_pos h₁ h₂).ne']
    exact (Nat.log2_self_le h₁.ne').trans (Nat.le_mul_of_pos_right _ h₂)
  have htarget : e₁ + e₂ ≤ Format.binary64.targetExponent (totalExponent (m₁ * m₂) (e₁ + e₂)) := by
    rw [targetExponent_eq, totalExponent_eq]
    omega
  have hround := Rounded.of_truncated (truncated_exact (m₁ * m₂)) htarget (s₁ * s₂)
  rw [Nat.cast_mul, zpow_add₀ two_ne_zero, mul_mul_mul_comm] at hround
  exact hround

/-- What a whole quotient leaves over says how the exact quotient lies. -/
theorem truncated_quotient (n : ℕ) {d : ℕ} (hd : 0 < d) :
    Truncated (n / d) (.ofMantissaAndAccuracy (n / d) (accuracyOfFraction (n % d) d)) := by
  have hpos : (0 : ℚ) < d := by exact_mod_cast hd
  have hwhole : (n : ℚ) = d * (n / d : ℕ) + (n % d : ℕ) := by exact_mod_cast (Nat.div_add_mod n d).symm
  have hsplit : (n : ℚ) / d = (n / d : ℕ) + (n % d : ℕ) / d := by
    rw [hwhole, add_div, mul_div_cancel_left₀ _ hpos.ne']
  have hlt : ((n % d : ℕ) : ℚ) < d := by exact_mod_cast Nat.mod_lt n hd
  rw [hsplit]
  unfold accuracyOfFraction
  generalize n % d = r at hlt
  by_cases hzero : r = 0
  · rw [if_pos hzero, hzero, Nat.cast_zero, zero_div, add_zero]
    exact truncated_exact _
  rw [if_neg hzero]
  have hrest : 0 < (r : ℚ) / d := div_pos (by exact_mod_cast Nat.pos_of_ne_zero hzero) hpos
  rcases Nat.lt_trichotomy (2 * r) d with hcmp | hcmp | hcmp
  · have hcast : (2 : ℚ) * r < d := by exact_mod_cast hcmp
    rw [Nat.compare_eq_lt.mpr hcmp]
    refine ⟨r / d, ?_, hrest.le, ?_, iff_of_true rfl hrest⟩
    · show _ = _ + 0 + _
      rw [add_zero]
      rfl
    · rw [div_lt_iff₀ hpos]
      linarith
  · have hcast : (r : ℚ) = 1 / 2 * d := by
      rw [← hcmp]
      push_cast
      ring
    rw [Nat.compare_eq_eq.mpr hcmp, hcast, mul_div_cancel_right₀ _ hpos.ne']
    exact ⟨0, (add_zero _).symm, le_rfl, by norm_num, iff_of_false Bool.false_ne_true (lt_irrefl 0)⟩
  · have hcast : (d : ℚ) < 2 * r := by exact_mod_cast hcmp
    have hhalf : 1 / 2 < (r : ℚ) / d := by
      rw [lt_div_iff₀ hpos]
      linarith
    have hone : (r : ℚ) / d < 1 := by
      rw [div_lt_iff₀ hpos]
      linarith
    rw [Nat.compare_eq_gt.mpr hcmp]
    refine ⟨r / d - 1 / 2, ?_, by linarith, by linarith, iff_of_true rfl (by linarith)⟩
    show _ = _ + 1 / 2 + _
    rw [add_assoc, add_sub_cancel]
    rfl

/-- A quotient is computed with enough bits. -/
theorem divCore_le {m₁ m₂ : ℕ} {e₁ e₂ t : ℤ} {k : ℕ} (h₁ : 0 < m₁) (h₂ : 0 < m₂)
    (ht : t ≤ Format.binary64.targetExponent (totalExponent m₁ e₁ - totalExponent m₂ e₂))
    (hk : (k : ℤ) = e₁ - e₂ - t) :
    t ≤ Format.binary64.targetExponent (totalExponent (m₁ <<< k / m₂) t) := by
  simp only [targetExponent_eq, totalExponent_eq] at ht ⊢
  rcases Int.lt_or_le (-1074) t with hnormal | hleast
  case inr => omega
  -- the quotient has as many bits as the two exponents differ by, or one more
  have hbits : 2 ^ (m₁.log2 + k - m₂.log2 - 1) ≤ m₁ <<< k / m₂ := by
    rw [Nat.le_div_iff_mul_le h₂, Nat.shiftLeft_eq]
    calc 2 ^ (m₁.log2 + k - m₂.log2 - 1) * m₂
        ≤ 2 ^ (m₁.log2 + k - m₂.log2 - 1) * 2 ^ (m₂.log2 + 1) :=
          Nat.mul_le_mul_left _ Nat.lt_log2_self.le
      _ = 2 ^ m₁.log2 * 2 ^ k := by
          rw [← Nat.pow_add, ← Nat.pow_add]
          congr 1
          omega
      _ ≤ m₁ * 2 ^ k := Nat.mul_le_mul_right _ (Nat.log2_self_le h₁.ne')
  have hlog : m₁.log2 + k - m₂.log2 - 1 ≤ (m₁ <<< k / m₂).log2 := by
    rw [Nat.le_log2 (by have := Nat.two_pow_pos (m₁.log2 + k - m₂.log2 - 1); omega)]
    exact hbits
  omega

/-- A quotient is rounded once. -/
theorem rounded_div (s₁ s₂ : Sign) {m₁ m₂ : ℕ} {e₁ e₂ : ℤ} {h₁ : 0 < m₁} {h₂ : 0 < m₂} :
    Rounded (s₁ / s₂) ((m₁ * 2 ^ e₁) / (m₂ * 2 ^ e₂))
      (UnpackedFloat.div .binary64 (.finite s₁ m₁ e₁ h₁) (.finite s₂ m₂ e₂ h₂)) := by
  obtain ⟨t, ht⟩ : ∃ t, t = min (e₁ - e₂)
      (Format.binary64.targetExponent (totalExponent m₁ e₁ - totalExponent m₂ e₂)) := ⟨_, rfl⟩
  obtain ⟨k, hk⟩ : ∃ k : ℕ, (k : ℤ) = e₁ - e₂ - t := ⟨(e₁ - e₂ - t).toNat, by omega⟩
  have hround := Rounded.of_truncated (truncated_quotient (m₁ <<< k) h₂)
    (divCore_le h₁ h₂ (by omega) hk) (s₁ / s₂)
  have hvalue : ((m₁ <<< k : ℕ) : ℚ) / m₂ * 2 ^ t = (m₁ * 2 ^ e₁) / (m₂ * 2 ^ e₂) := by
    rw [show e₁ = k + t + e₂ by omega, Nat.shiftLeft_eq, zpow_add₀ two_ne_zero, zpow_add₀ two_ne_zero,
      zpow_natCast]
    push_cast
    field_simp
  rw [hvalue] at hround
  unfold UnpackedFloat.div divCore
  dsimp only
  rw [← ht, ← hk, Int.toNat_natCast]
  exact hround

/-! ### Whole numbers as numbers -/

theorem unpackSign_packComponents {spec : Format} (s : Sign) (e : BitVec spec.exponentBits)
    (m : BitVec spec.mantissaBitsWithoutImplicit) : unpackSign (packComponents spec s e m) = s.toBitVec := by
  apply BitVec.eq_of_getLsbD_eq
  intro i hi
  obtain rfl : i = 0 := by omega
  show (BitVec.cast _ (BitVec.extractLsb _ _ (packComponents spec s e m))).getLsbD 0 = _
  simp [packComponents, BitVec.getLsbD_append, BitVec.getElem_append]

theorem ofBitVec_toBitVec (s : Sign) : Sign.ofBitVec s.toBitVec = s := by cases s <;> rfl

/-- Numbers of the same parts are the same. -/
theorem finite_congr {s s' : Sign} {m m' : ℕ} {e e' : ℤ} {hm : 0 < m} {hm' : 0 < m'} (hs : s = s') (h : m = m')
    (he : e = e') : UnpackedFloat.finite s m e hm = .finite s' m' e' hm' := by
  subst hs h he
  rfl

/-- The first of 53 bits need not be stored. -/
theorem implicit_append {m : ℕ} (hbits : m.log2 = 52) : (1#1 ++ BitVec.ofNat 52 m).toNat = m := by
  have hm : m ≠ 0 := by
    rintro rfl
    exact absurd hbits (by decide)
  obtain ⟨hlow, hhigh⟩ := (Nat.log2_eq_iff hm).mp hbits
  rw [BitVec.toNat_append, ← Nat.shiftLeft_add_eq_or_of_lt (BitVec.isLt _)]
  simp only [BitVec.toNat_ofNat, Nat.shiftLeft_eq]
  omega

/-- A number with all 53 bits is stored as it is. -/
theorem unpack_pack_normal {s : Sign} {m : ℕ} {e : ℤ} {hm : 0 < m} (hbits : m.log2 = 52)
    (hlow : -1074 ≤ e) (hhigh : e ≤ 971) :
    (Float.Model.pack (.finite s m e hm)).unpack = .finite s m e hm := by
  obtain ⟨b, hb⟩ : ∃ b : ℕ, (b : ℤ) = e + 1023 + 52 := ⟨(e + 1023 + 52).toNat, by omega⟩
  have hpack : UnpackedFloat.pack .binary64 (.finite s m e hm) =
      packComponents .binary64 s (BitVec.ofNat 11 b) (BitVec.ofNat 52 m) := by
    unfold UnpackedFloat.pack
    have hbias : (e + (Format.binary64.exponentBias : ℤ) + (52 : ℕ)).toNat = b := by
      show (e + 1023 + 52).toNat = b
      omega
    dsimp only
    rw [hbias, if_neg (by omega), hbits]
    rfl
  have hexponent : (BitVec.ofNat 11 b).toNat = b := Nat.mod_eq_of_lt (by omega)
  have hnotOnes : BitVec.ofNat 11 b ≠ -1#11 := by
    intro h
    have hvalue := congrArg BitVec.toNat h
    rw [hexponent] at hvalue
    change b = 2047 at hvalue
    omega
  have hnotZero : BitVec.ofNat 11 b ≠ 0#11 := by
    intro h
    have hvalue := congrArg BitVec.toNat h
    rw [hexponent] at hvalue
    change b = 0 at hvalue
    omega
  show UnpackedFloat.unpack .binary64 (UnpackedFloat.pack .binary64 (.finite s m e hm)) = _
  rw [hpack]
  unfold UnpackedFloat.unpack
  dsimp only
  rw [if_neg (by rwa [unpackExponent_packComponents]), if_neg (by rwa [unpackExponent_packComponents])]
  refine finite_congr ?_ ?_ ?_
  · rw [unpackSign_packComponents, ofBitVec_toBitVec]
  · rw [unpackMantissa_packComponents]
    exact implicit_append hbits
  · rw [unpackExponent_packComponents, hexponent]
    show (b : ℤ) - (1023 + 52) = e
    omega

theorem log2_shiftLeft {n : ℕ} (hn : 0 < n) (k : ℕ) : (n <<< k).log2 = n.log2 + k := by
  rw [Nat.log2_eq_iff (Nat.shiftLeft_pos_iff.mpr hn).ne', Nat.shiftLeft_eq]
  constructor
  · rw [Nat.pow_add]
    exact Nat.mul_le_mul_right _ (Nat.log2_self_le hn.ne')
  · rw [Nat.add_right_comm, Nat.pow_add]
    exact Nat.mul_lt_mul_of_pos_right Nat.lt_log2_self (Nat.two_pow_pos k)

/-- A mantissa with all 53 bits need not be rounded. -/
theorem roundWithAccuracy_normal {s : Sign} {m : ℕ} {e : ℤ} (hm : 0 < m) (hbits : m.log2 = 52) (he : -1074 ≤ e) :
    roundWithAccuracy .binary64 s m e .exact = .finite s m e hm := by
  have hlt : m < 2 ^ 53 := ((Nat.log2_eq_iff hm.ne').mp hbits).2
  rw [roundWithAccuracy_eq (shiftToTargetExponent_of_lt hlt he) hlt he]
  exact (dif_neg hm.ne').trans (if_pos hlt)

/-- A whole number below `2 ^ 53` is a number. -/
theorem unpack_ofNat {n : ℕ} (hn : 0 < n) (hlt : n < 2 ^ 53) :
    ∃ m e hm, (Float.Model.pack (UnpackedFloat.ofNat .binary64 n)).unpack = .finite .positive m e hm ∧
      m.log2 = 52 ∧ (m : ℚ) * 2 ^ e = n := by
  obtain ⟨k, hk⟩ : ∃ k, n.log2 + k = 52 := ⟨52 - n.log2, by have := log2_le_of_lt hlt; omega⟩
  have hm : 0 < n <<< k := Nat.shiftLeft_pos_iff.mpr hn
  have hbits : (n <<< k).log2 = 52 := by rw [log2_shiftLeft hn, hk]
  have htarget : Format.binary64.targetExponent (totalExponent n 0) = -k := by
    rw [targetExponent_eq, totalExponent_eq]
    omega
  refine ⟨n <<< k, -k, hm, ?_, hbits, ?_⟩
  · have hround : UnpackedFloat.ofNat .binary64 n = .finite .positive (n <<< k) (-k) hm := by
      have hcompare : compare (n : ℤ) 0 = .gt := Int.compare_eq_gt.mpr (by omega)
      unfold UnpackedFloat.ofNat UnpackedFloat.ofInt UnpackedFloat.normalize
      rw [hcompare]
      unfold UnpackedFloat.round UnpackedFloat.decreaseExponent
      dsimp only
      rw [Int.toNat_natCast, htarget, show ((0 : ℤ) - -k).toNat = k by omega, zero_sub]
      exact roundWithAccuracy_normal hm hbits (by omega)
    rw [hround]
    exact unpack_pack_normal hbits (by omega) (by omega)
  · rw [Nat.shiftLeft_eq, zpow_neg, zpow_natCast]
    push_cast
    field_simp

/-! ### Powers of ten, and what is computed with them -/

theorem five_shiftLeft_pos (n k : ℕ) : 0 < 5 ^ n <<< k :=
  Nat.shiftLeft_pos_iff.mpr (Nat.pow_pos (by decide))

/-- The powers of ten up to the 22nd are numbers: those of five have at most 53 bits. -/
theorem powersOfTen_eq (n : Fin 23) :
    (Float.exactlyRepresentablePowersOfTen[n]).toModel =
      Float.Model.pack (.finite .positive (5 ^ n.val <<< (52 - (5 ^ n.val).log2))
        (n.val - (52 - (5 ^ n.val).log2 : ℕ)) (five_shiftLeft_pos ..)) := by
  revert n
  decide +kernel

theorem unpack_powerOfTen (n : Fin 23) :
    ∃ m e hm, (Float.exactlyRepresentablePowersOfTen[n]).toModel.unpack = .finite .positive m e hm ∧
      (m : ℚ) * 2 ^ e = 10 ^ n.val := by
  have hlt : 5 ^ n.val < 2 ^ 53 :=
    (Nat.pow_le_pow_right (by decide) (Nat.le_of_lt_succ n.isLt)).trans_lt (by decide : 5 ^ 22 < 2 ^ 53)
  have hlog := log2_le_of_lt hlt
  obtain ⟨k, hk⟩ : ∃ k, k = 52 - (5 ^ n.val).log2 := ⟨_, rfl⟩
  have hbits : (5 ^ n.val <<< k).log2 = 52 := by
    rw [log2_shiftLeft (Nat.pow_pos (by decide))]
    omega
  refine ⟨5 ^ n.val <<< k, n.val - k, five_shiftLeft_pos .., ?_, ?_⟩
  · have hn := n.isLt
    rw [powersOfTen_eq, ← hk]
    exact unpack_pack_normal hbits (by omega) (by omega)
  · rw [Nat.shiftLeft_eq, zpow_sub₀ two_ne_zero, zpow_natCast, zpow_natCast]
    push_cast
    rw [show (10 : ℚ) = 5 * 2 by norm_num, mul_pow]
    field_simp

/-- What a value that is not negative is stored as: it is rounded once, or it is so large or so small that
it is an infinity or zero whatever its bits are. -/
inductive StoredAs (q : ℚ) (f : Float) : Prop
  | rounded {u : UnpackedFloat} : f.toModel = Float.Model.pack u → Rounded .positive q u → StoredAs q f
  | huge : f.toModel = Float.Model.pack (.infinity .positive) → 10 ^ 309 ≤ q → StoredAs q f
  | tiny : f.toModel = Float.Model.pack (.zero .positive) → q < 10 ^ (-330 : ℤ) → StoredAs q f

theorem StoredAs.zero {f : Float} (h : f.toModel = Float.Model.pack (.zero .positive)) : StoredAs 0 f :=
  .tiny h (zpow_pos (by norm_num) _)

/-- A decimal with many digits for its exponent. -/
theorem le_of_digits {m k : ℕ} {e : ℤ} (hm : 10 ^ k ≤ m) (he : 309 ≤ k + e) : (10 : ℚ) ^ 309 ≤ m * 10 ^ e := by
  have hm' : (10 : ℚ) ^ k ≤ m := by exact_mod_cast hm
  calc (10 : ℚ) ^ 309 = 10 ^ (309 : ℤ) := rfl
    _ ≤ 10 ^ ((k : ℤ) + e) := zpow_le_zpow_right₀ (by norm_num) he
    _ = 10 ^ k * 10 ^ e := by rw [zpow_add₀ (by norm_num), zpow_natCast]
    _ ≤ m * 10 ^ e := mul_le_mul_of_nonneg_right hm' (zpow_nonneg (by norm_num) _)

/-- A decimal with few digits for its exponent. -/
theorem lt_of_digits {m k : ℕ} {e : ℤ} (hm : m < 10 ^ k) (he : k + e ≤ -330) :
    (m : ℚ) * 10 ^ e < 10 ^ (-330 : ℤ) := by
  have hm' : (m : ℚ) < 10 ^ k := by exact_mod_cast hm
  calc (m : ℚ) * 10 ^ e < 10 ^ k * 10 ^ e := mul_lt_mul_of_pos_right hm' (zpow_pos (by norm_num) _)
    _ = 10 ^ ((k : ℤ) + e) := by rw [zpow_add₀ (by norm_num), zpow_natCast]
    _ ≤ 10 ^ (-330 : ℤ) := zpow_le_zpow_right₀ (by norm_num) he

theorem unpack_toFloat {m : ℕ} (hm : m < 2 ^ 53) :
    m.toUInt64.toFloat.toModel = Float.Model.pack (UnpackedFloat.ofNat .binary64 m) := by
  have hnat : m.toUInt64.toNat = m := Nat.mod_eq_of_lt (hm.trans (by decide))
  show Float.Model.pack (UnpackedFloat.ofNat .binary64 m.toUInt64.toNat) = _
  rw [hnat]

theorem unpack_ofNat_zero : (Float.Model.pack (UnpackedFloat.ofNat .binary64 0)).unpack = .zero .positive := by
  rfl

/-- Few digits and a small exponent: both factors are numbers. -/
theorem storedAs_product {m : ℕ} (hm : m < 2 ^ 53) (n : Fin 23) :
    StoredAs (m * 10 ^ n.val) (m.toUInt64.toFloat * Float.exactlyRepresentablePowersOfTen[n]) := by
  obtain ⟨m₂, e₂, h₂, hunpack₂, hvalue₂⟩ := unpack_powerOfTen n
  have hmodel : (m.toUInt64.toFloat * Float.exactlyRepresentablePowersOfTen[n]).toModel =
      Float.Model.pack (UnpackedFloat.mul .binary64 m.toUInt64.toFloat.toModel.unpack
        (Float.exactlyRepresentablePowersOfTen[n]).toModel.unpack) := rfl
  rw [hunpack₂, unpack_toFloat hm] at hmodel
  rcases Nat.eq_zero_or_pos m with rfl | hpos
  · rw [Nat.cast_zero, zero_mul]
    rw [unpack_ofNat_zero] at hmodel
    exact .zero hmodel
  · obtain ⟨m₁, e₁, h₁, hunpack₁, hbits₁, hvalue₁⟩ := unpack_ofNat hpos hm
    rw [hunpack₁] at hmodel
    rw [← hvalue₁, ← hvalue₂]
    exact .rounded hmodel (rounded_mul .positive .positive hbits₁.ge)

theorem storedAs_quotient {m : ℕ} (hm : m < 2 ^ 53) (n : Fin 23) :
    StoredAs (m / 10 ^ n.val) (m.toUInt64.toFloat / Float.exactlyRepresentablePowersOfTen[n]) := by
  obtain ⟨m₂, e₂, h₂, hunpack₂, hvalue₂⟩ := unpack_powerOfTen n
  have hmodel : (m.toUInt64.toFloat / Float.exactlyRepresentablePowersOfTen[n]).toModel =
      Float.Model.pack (UnpackedFloat.div .binary64 m.toUInt64.toFloat.toModel.unpack
        (Float.exactlyRepresentablePowersOfTen[n]).toModel.unpack) := rfl
  rw [hunpack₂, unpack_toFloat hm] at hmodel
  rcases Nat.eq_zero_or_pos m with rfl | hpos
  · rw [Nat.cast_zero, zero_div]
    rw [unpack_ofNat_zero] at hmodel
    exact .zero hmodel
  · obtain ⟨m₁, e₁, h₁, hunpack₁, hbits₁, hvalue₁⟩ := unpack_ofNat hpos hm
    rw [hunpack₁] at hmodel
    rw [← hvalue₁, ← hvalue₂]
    exact .rounded hmodel (rounded_div .positive .positive)

/-- Any digits and any exponent. Where the exponent alone decides, nothing is computed. -/
theorem storedAs_scientific {f : Float} {m : ℕ} {e : ℤ} (hf : f.toModel = Float.Model.ofScientific m e) :
    StoredAs (m * 10 ^ e) f := by
  unfold Float.Model.ofScientific UnpackedFloat.ofScientific at hf
  by_cases hm : m = 0
  · rw [dif_pos hm] at hf
    rw [hm, Nat.cast_zero, zero_mul]
    exact .zero hf
  rw [dif_neg hm] at hf
  by_cases hbig : e > 2 ^ Format.binary64.exponentBits
  · rw [if_pos hbig] at hf
    change (2 : ℤ) ^ 11 < e at hbig
    exact .huge hf (le_of_digits (k := 0) (Nat.one_le_iff_ne_zero.mpr hm) (by omega))
  rw [if_neg hbig] at hf
  by_cases hsmall : e < -(2 ^ Format.binary64.exponentBits + m.log2)
  · rw [if_pos hsmall] at hf
    change e < -((2 : ℤ) ^ 11 + m.log2) at hsmall
    have hdigits : m < 10 ^ (m.log2 + 1) :=
      Nat.lt_log2_self.trans_le (Nat.pow_le_pow_left (by decide) _)
    exact .tiny hf (lt_of_digits hdigits (by omega))
  rw [if_neg hsmall] at hf
  by_cases hnonneg : 0 ≤ e
  · rw [if_pos hnonneg] at hf
    obtain ⟨n, rfl⟩ := Int.eq_ofNat_of_zero_le hnonneg
    have hlog : (m <<< 53).log2 = m.log2 + 53 := log2_shiftLeft (Nat.pos_of_ne_zero hm) 53
    have hvalue : ((m <<< 53 : ℕ) : ℚ) * 2 ^ (-53 : ℤ) * ((10 ^ n : ℕ) * 2 ^ (0 : ℤ)) =
        m * 10 ^ (n : ℤ) := by
      rw [Nat.shiftLeft_eq, zpow_natCast]
      push_cast
      norm_num
      ring
    rw [← hvalue]
    exact .rounded hf (rounded_mul .positive .positive (by show 52 ≤ (m <<< 53).log2; omega))
  · rw [if_neg hnonneg] at hf
    have hvalue : (m : ℚ) * 2 ^ (0 : ℤ) / ((10 ^ (-e).toNat : ℕ) * 2 ^ (0 : ℤ)) = m * 10 ^ e := by
      obtain ⟨n, hn⟩ := Int.eq_ofNat_of_zero_le (show 0 ≤ -e by omega)
      obtain rfl : e = -n := by omega
      rw [zpow_zero, mul_one, mul_one, zpow_neg, zpow_natCast, ← div_eq_mul_inv, neg_neg, Int.toNat_natCast]
      push_cast
      rfl
    rw [← hvalue]
    exact .rounded hf (rounded_div .positive .positive)

theorem storedAs_ofScientific (m : ℕ) (negative : Bool) (e : ℕ) :
    StoredAs (m * 10 ^ (if negative then -(e : ℤ) else e)) (Float.ofScientific m negative e) := by
  unfold Float.ofScientific
  by_cases hsmall : m < 2 ^ 53 ∧ e ≤ 22
  · let n : Fin 23 := ⟨e, Nat.lt_succ_of_le hsmall.2⟩
    rw [dif_pos hsmall]
    cases negative with
    | true =>
      have hquotient := storedAs_quotient hsmall.1 n
      rw [div_eq_mul_inv, ← zpow_natCast, ← zpow_neg] at hquotient
      exact hquotient
    | false =>
      have hproduct := storedAs_product hsmall.1 n
      rw [← zpow_natCast] at hproduct
      exact hproduct
  · rw [dif_neg hsmall]
    cases negative with
    | true =>
      have hscientific := storedAs_scientific (f := .ofModel (.ofScientific m (Int.negOfNat e))) rfl
      rw [Int.negOfNat_eq] at hscientific
      exact hscientific
    | false => exact storedAs_scientific rfl

/-! ### The limit -/

theorem isInf_zero (s : Sign) : (Float.Model.pack (.zero s)).isInf ≠ true := by cases s <;> decide

theorem one_lt_limit : 1 < limit := by
  have hunit : (1 : ℚ) ≤ 2 ^ (971 : ℤ) := one_le_zpow₀ one_le_two (by norm_num)
  rw [limit_eq]
  generalize (2 : ℚ) ^ (971 : ℤ) = unit at *
  linarith

theorem limit_lt : limit < 2 ^ 1024 := sub_lt_self _ (pow_pos two_pos _)

theorem two_pow_le : (2 : ℚ) ^ 1024 ≤ 10 ^ 309 :=
  calc (2 : ℚ) ^ 1024 = (2 ^ 93) ^ 11 * 2 := by rw [← pow_mul, ← pow_succ]
    _ ≤ (10 ^ 28) ^ 11 * 10 :=
      mul_le_mul (pow_le_pow_left₀ (by norm_num) (by norm_num) _) (by norm_num) (by norm_num) (by norm_num)
    _ = 10 ^ 309 := by rw [← pow_mul, ← pow_succ]

theorem limit_le : limit ≤ 10 ^ 309 := limit_lt.le.trans two_pow_le

/-- What is stored is an infinity exactly if the exact value reaches the limit. -/
theorem StoredAs.isInf_iff {q : ℚ} {f : Float} (h : StoredAs q f) : f.isInf = true ↔ limit ≤ q := by
  have hisInf : f.isInf = f.toModel.isInf := rfl
  rw [hisInf]
  cases h with
  | rounded hmodel hrounded =>
    rw [hmodel]
    exact hrounded.isInf_iff
  | huge hmodel hlarge =>
    rw [hmodel]
    exact iff_of_true (by decide) (limit_le.trans hlarge)
  | tiny hmodel hsmall =>
    rw [hmodel]
    have hone : (10 : ℚ) ^ (-330 : ℤ) ≤ 1 := zpow_le_one_of_nonpos₀ (by norm_num) (by norm_num)
    exact iff_of_false (isInf_zero _) (not_le.mpr (hsmall.trans (hone.trans_lt one_lt_limit)))

/-! ### Decimals -/

namespace Decimal

theorem lt_pow_length (n : ℕ) : n < 10 ^ (Nat.toDigits 10 n).length :=
  (Nat.length_toDigits_le_iff (by decide) Nat.length_toDigits_pos).mp le_rfl

theorem pow_length_le {n : ℕ} (hn : n ≠ 0) : 10 ^ ((Nat.toDigits 10 n).length - 1) ≤ n := by
  rcases Nat.eq_zero_or_pos ((Nat.toDigits 10 n).length - 1) with hzero | hpos
  · rw [hzero]
    exact Nat.one_le_iff_ne_zero.mpr hn
  · by_contra hlt
    have hle := (Nat.length_toDigits_le_iff (by decide) hpos).mpr (not_le.mp hlt)
    omega

/-- The exact value of a decimal. -/
def toRat (d : Decimal) : ℚ := d.digits * 10 ^ d.exponent

/-- The number nearest to a decimal is what its exact value is stored as. -/
theorem storedAs_nearest (d : Decimal) : StoredAs d.toRat d.nearest := by
  unfold nearest toRat
  dsimp only
  split
  case isTrue hzero =>
    rw [Bool.or_eq_true, decide_eq_true_eq, decide_eq_true_eq] at hzero
    rcases hzero with hzero | hsmall
    · rw [hzero, Nat.cast_zero, zero_mul]
      exact .zero (by decide)
    · exact .tiny (by decide) (lt_of_digits (lt_pow_length d.digits) (by omega))
  case isFalse hnonzero =>
    have hdigits : d.digits ≠ 0 := by
      intro hzero
      simp [hzero] at hnonzero
    split
    case isTrue hbig =>
      have hlength := Nat.length_toDigits_pos (b := 10) (n := d.digits)
      exact .huge (by decide) (le_of_digits (pow_length_le hdigits) (by omega))
    case isFalse =>
      have hexponent : (if decide (d.exponent < 0) then -(d.exponent.natAbs : ℤ) else d.exponent.natAbs) =
          d.exponent := by
        rcases Int.lt_or_le d.exponent 0 with hneg | hnonneg
        · rw [if_pos (decide_eq_true hneg)]
          omega
        · rw [if_neg (by simpa using hnonneg)]
          omega
      have hstored := storedAs_ofScientific d.digits (decide (d.exponent < 0)) d.exponent.natAbs
      rw [hexponent] at hstored
      exact hstored

/-- The number nearest to a decimal is an infinity exactly if the decimal reaches the limit. -/
theorem isInf_nearest (d : Decimal) : d.nearest.isInf = true ↔ limit ≤ d.toRat := d.storedAs_nearest.isInf_iff

end Decimal

end Offside.Number
