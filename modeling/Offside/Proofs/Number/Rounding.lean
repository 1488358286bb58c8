import Mathlib.Algebra.Order.Field.Power
import Mathlib.Algebra.Order.Ring.Rat
import Mathlib.Tactic.FieldSimp
import Mathlib.Tactic.Linarith
import Mathlib.Tactic.Positivity
import Mathlib.Tactic.Ring

/-! Where rounding overflows.

An operation on numbers comes to a mantissa, an exponent and what is known of the bits that were cut
off. `Truncated` says what that knowledge means for the exact result, in units of the mantissa's last bit. It
survives every shift, so the mantissa that is kept is the one nearest to the exact result, and the
result is stored as an infinity exactly if it is `limit` or more: half a unit above the largest
number. -/
namespace Offside.Number
open Float.Model Float.Model.UnpackedFloat

/-- The least that is rounded to an infinity: the largest number is `2 ^ 1024 - 2 ^ 971`, and the next
one would be `2 ^ 1024`. -/
def limit : ℚ := 2 ^ 1024 - 2 ^ 970

/-! ### Bits that were cut off -/

/-- What a bit of half a unit counts. -/
def half (bit : Bool) : ℚ := if bit then 1 / 2 else 0

theorem half_nonneg (bit : Bool) : 0 ≤ half bit := by cases bit <;> norm_num [half]

theorem half_le (bit : Bool) : half bit ≤ 1 / 2 := by cases bit <;> norm_num [half]

/-- `x` with the bits after its point cut off: the first of them is the round bit, and the sticky bit
tells whether another one is set. -/
def Truncated (x : ℚ) (em : ExtendedMantissa) : Prop :=
  ∃ rest, x = em.mantissa + half em.roundBit + rest ∧ 0 ≤ rest ∧ rest < 1 / 2 ∧
    (em.stickyBit = true ↔ 0 < rest)

theorem Truncated.le {x : ℚ} {em : ExtendedMantissa} (h : Truncated x em) : em.mantissa ≤ x := by
  obtain ⟨rest, rfl, hrest, -, -⟩ := h
  linarith [half_nonneg em.roundBit]

theorem Truncated.lt {x : ℚ} {em : ExtendedMantissa} (h : Truncated x em) : x < em.mantissa + 1 := by
  obtain ⟨rest, rfl, -, hrest, -⟩ := h
  linarith [half_le em.roundBit]

theorem truncated_exact (m : ℕ) : Truncated m (.ofMantissaAndAccuracy m .exact) :=
  ⟨0, by simp [ExtendedMantissa.ofMantissaAndAccuracy, half], le_rfl, by norm_num,
    by simp [ExtendedMantissa.ofMantissaAndAccuracy]⟩

/-- One more bit is cut off. -/
theorem Truncated.shiftRightOne {x : ℚ} {em : ExtendedMantissa} (h : Truncated x em) :
    Truncated (x / 2) em.shiftRightOne := by
  obtain ⟨rest, rfl, hrest, hlt, hsticky⟩ := h
  obtain ⟨m, round, sticky⟩ := em
  dsimp only at hsticky ⊢
  have hsplit : (m : ℚ) = 2 * (m / 2 : ℕ) + (m % 2 : ℕ) := by exact_mod_cast (Nat.div_add_mod m 2).symm
  have hbit : ((m % 2 : ℕ) : ℚ) = 2 * half (m % 2 != 0) := by
    rcases Nat.mod_two_eq_zero_or_one m with hm | hm <;> norm_num [hm, half]
  refine ⟨(half round + rest) / 2, ?_, ?_, ?_, ?_⟩
  · show _ = ((m / 2 : ℕ) : ℚ) + half (m % 2 != 0) + _
    linarith
  · linarith [half_nonneg round]
  · linarith [half_le round]
  · show (round || sticky) = true ↔ _
    rw [Bool.or_eq_true, hsticky]
    cases round with
    | false =>
      show _ ↔ 0 < (0 + rest) / 2
      rw [zero_add]
      exact ⟨fun hpos => by linarith [hpos.resolve_left nofun], fun hpos => .inr (by linarith)⟩
    | true =>
      have hpos : 0 < (half true + rest) / 2 := by
        show 0 < (1 / 2 + rest) / 2
        linarith
      simp [hpos]

theorem Truncated.shiftRight {x : ℚ} {em : ExtendedMantissa} (h : Truncated x em) (n : ℕ) :
    Truncated (x / 2 ^ n) (em >>> n) := by
  induction n with
  | zero =>
    rw [pow_zero, div_one]
    exact h
  | succ n ih =>
    rw [pow_succ, ← div_div]
    exact ih.shiftRightOne

theorem roundedMantissa_eq (em : ExtendedMantissa) :
    em.roundedMantissa = em.mantissa +
      if em.roundBit then (if em.stickyBit then 1 else em.mantissa % 2) else 0 := by
  obtain ⟨m, round, sticky⟩ := em
  cases round <;> cases sticky <;> rfl

theorem roundedMantissa_le (em : ExtendedMantissa) : em.roundedMantissa ≤ em.mantissa + 1 := by
  rw [roundedMantissa_eq]
  split <;> try split
  all_goals omega

/-- Of two mantissas equally near the even one is taken, so an even mantissa is taken from half a unit
below it on. -/
theorem Truncated.le_rounded_iff {x : ℚ} {em : ExtendedMantissa} {k : ℕ} (h : Truncated x em) (hk : k % 2 = 0) :
    k ≤ em.roundedMantissa ↔ (k : ℚ) - 1 / 2 ≤ x := by
  have hle := h.le
  have hlt := h.lt
  rcases Nat.lt_trichotomy k (em.mantissa + 1) with hbelow | rfl | habove
  · have hcast : (k : ℚ) ≤ em.mantissa := by exact_mod_cast Nat.le_of_lt_succ hbelow
    refine iff_of_true ?_ (by linarith)
    rw [roundedMantissa_eq]
    omega
  · obtain ⟨rest, rfl, hrest, hsmall, -⟩ := h
    have hodd : em.mantissa % 2 = 1 := by omega
    rw [roundedMantissa_eq, hodd, ite_self]
    cases em.roundBit with
    | false =>
      refine iff_of_false (by simp) ?_
      push_cast [half]
      norm_num
      linarith
    | true =>
      refine iff_of_true (by simp) ?_
      push_cast [half]
      norm_num
      linarith
  · have hcast : (em.mantissa : ℚ) + 2 ≤ k := by exact_mod_cast habove
    have hround := roundedMantissa_le em
    exact iff_of_false (by omega) (by linarith)

/-! ### Rounded results -/

theorem targetExponent_eq (total : ℤ) : Format.binary64.targetExponent total = max (total - 53) (-1074) := rfl

theorem totalExponent_eq (m : ℕ) (e : ℤ) : totalExponent m e = m.log2 + 1 + e := rfl

/-- The mantissa before rounding, where enough bits are at hand, and the exponent it goes with. -/
theorem shiftToTargetExponent_eq {m : ℕ} {e t : ℤ} (a : Accuracy)
    (ht : Format.binary64.targetExponent (totalExponent m e) = t) (he : e ≤ t) :
    shiftToTargetExponent .binary64 m e a =
      (ExtendedMantissa.ofMantissaAndAccuracy m a >>> (t - e).toNat, t) := by
  unfold shiftToTargetExponent shiftToExponent
  rw [ht]
  dsimp only
  congr 1
  omega

theorem log2_le_of_lt {m : ℕ} (hm : m < 2 ^ 53) : m.log2 ≤ 52 := by
  rcases Nat.eq_zero_or_pos m with rfl | hpos
  · exact Nat.zero_le _
  · exact Nat.le_of_lt_succ ((Nat.log2_lt hpos.ne').mpr hm)

/-- A mantissa of at most 53 bits stays as it is. -/
theorem shiftToTargetExponent_of_lt {m : ℕ} {t : ℤ} (hm : m < 2 ^ 53) (ht : -1074 ≤ t) :
    shiftToTargetExponent .binary64 m t .exact = (⟨m, false, false⟩, t) := by
  have hlog := log2_le_of_lt hm
  have htarget : Format.binary64.targetExponent (totalExponent m t) ≤ t := by
    rw [targetExponent_eq, totalExponent_eq]
    omega
  have hamount : (Format.binary64.targetExponent (totalExponent m t) - t).toNat = 0 := by omega
  unfold shiftToTargetExponent shiftToExponent
  dsimp only
  rw [hamount]
  exact congrArg (_, ·) (by omega)

/-- Rounding up to a 54th bit takes one more shift. -/
theorem shiftToTargetExponent_carry {t : ℤ} (ht : -1074 ≤ t) :
    shiftToTargetExponent .binary64 (2 ^ 53) t .exact = (⟨2 ^ 52, false, false⟩, t + 1) := by
  have htarget : Format.binary64.targetExponent (totalExponent (2 ^ 53) t) = t + 1 := by
    rw [targetExponent_eq, totalExponent_eq, Nat.log2_two_pow]
    omega
  rw [shiftToTargetExponent_eq .exact htarget (by omega)]
  have hamount : (t + 1 - t).toNat = 1 := by omega
  rw [hamount]
  rfl

/-- What a result is rounded to, given its bits before rounding. -/
theorem roundWithAccuracy_eq {s : Sign} {m : ℕ} {e t : ℤ} {a : Accuracy} {em : ExtendedMantissa}
    (hshift : shiftToTargetExponent .binary64 m e a = (em, t)) (hm : em.mantissa < 2 ^ 53) (ht : -1074 ≤ t) :
    roundWithAccuracy .binary64 s m e a =
      if h : em.roundedMantissa = 0 then .zero s
      else if em.roundedMantissa < 2 ^ 53 then .finite s em.roundedMantissa t (Nat.pos_of_ne_zero h)
      else .finite s (2 ^ 52) (t + 1) (Nat.two_pow_pos 52) := by
  have hle : em.roundedMantissa ≤ 2 ^ 53 := (roundedMantissa_le em).trans hm
  unfold roundWithAccuracy
  rw [hshift]
  dsimp only
  by_cases hlt : em.roundedMantissa < 2 ^ 53
  · rw [shiftToTargetExponent_of_lt hlt ht]
    by_cases hzero : em.roundedMantissa = 0
    · rw [dif_pos hzero, dif_pos hzero]
    · rw [dif_neg hzero, dif_neg hzero, if_pos hlt]
  · have hcarry : em.roundedMantissa = 2 ^ 53 := by omega
    rw [hcarry, shiftToTargetExponent_carry ht]
    rfl

/-! ### Results that are stored -/

/-- What is stored: with an exponent of all ones an infinity or no number at all, and otherwise zero or
another number. -/
theorem unpack_cases (b : BitVec Format.binary64.numBits) :
    (unpackExponent b = -1#11 ∧ unpackMantissa b = 0#52 ∧ ∃ s, UnpackedFloat.unpack .binary64 b = .infinity s) ∨
    (unpackExponent b = -1#11 ∧ unpackMantissa b ≠ 0#52 ∧ UnpackedFloat.unpack .binary64 b = .notANumber) ∨
    (unpackExponent b ≠ -1#11 ∧ ((∃ s, UnpackedFloat.unpack .binary64 b = .zero s) ∨
      ∃ s m e hm, UnpackedFloat.unpack .binary64 b = .finite s m e hm)) := by
  unfold UnpackedFloat.unpack
  dsimp only
  by_cases hexponent : unpackExponent b = -1#11
  · rw [if_pos hexponent]
    by_cases hmantissa : unpackMantissa b = 0#52
    · exact .inl ⟨hexponent, hmantissa, _, if_pos hmantissa⟩
    · exact .inr (.inl ⟨hexponent, hmantissa, if_neg hmantissa⟩)
  · rw [if_neg hexponent]
    refine .inr (.inr ⟨hexponent, ?_⟩)
    by_cases hzero : unpackExponent b = 0#11
    · rw [if_pos hzero]
      by_cases hmantissa : unpackMantissa b = 0#52
      · exact .inl ⟨_, dif_pos hmantissa⟩
      · have hpos : 0 < (unpackMantissa b).toNat :=
          Nat.pos_of_ne_zero fun h => hmantissa (BitVec.eq_of_toNat_eq h)
        exact .inr ⟨_, _, _, hpos, dif_neg hmantissa⟩
    · have hpos : 0 < (1#1 ++ unpackMantissa b).toNat := by
        rw [BitVec.toNat_append]
        exact Nat.lt_of_lt_of_le (by decide) Nat.left_le_or
      exact .inr ⟨_, _, _, hpos, if_neg hzero⟩

theorem unpack_isInf_iff (b : BitVec Format.binary64.numBits) :
    (UnpackedFloat.unpack .binary64 b).isInf = true ↔ unpackExponent b = -1#11 ∧ unpackMantissa b = 0#52 := by
  rcases unpack_cases b with ⟨hexponent, hmantissa, s, h⟩ | ⟨-, hmantissa, h⟩ |
    ⟨hexponent, ⟨s, h⟩ | ⟨s, m, e, hm, h⟩⟩ <;> rw [h]
  · exact iff_of_true rfl ⟨hexponent, hmantissa⟩
  · exact iff_of_false Bool.false_ne_true fun h => hmantissa h.2
  · exact iff_of_false Bool.false_ne_true fun h => hexponent h.1
  · exact iff_of_false Bool.false_ne_true fun h => hexponent h.1

theorem isInf_pack (u : UnpackedFloat) :
    (Float.Model.pack u).isInf = true ↔
      unpackExponent (UnpackedFloat.pack .binary64 u) = -1#11 ∧
        unpackMantissa (UnpackedFloat.pack .binary64 u) = 0#52 :=
  unpack_isInf_iff _

/-- A number is stored as an infinity if its exponent does not fit. -/
theorem isInf_pack_finite {s : Sign} {m : ℕ} {e : ℤ} {hm : 0 < m} :
    (Float.Model.pack (.finite s m e hm)).isInf = true ↔ 972 ≤ e := by
  rw [isInf_pack]
  unfold UnpackedFloat.pack
  dsimp only [Format.exponentBias]
  split
  case isTrue hbig =>
    refine iff_of_true ?_ ?_
    · simp [packedInfinity]
    · norm_num at hbig
      omega
  case isFalse hfits =>
    norm_num at hfits
    refine iff_of_false ?_ (by omega)
    split
    · rw [unpackExponent_packComponents]
      rintro ⟨hones, -⟩
      have hvalue := congrArg BitVec.toNat hones
      simp at hvalue
      omega
    · rw [unpackExponent_packComponents]
      simp

/-! ### Overflow -/

theorem mantissa_ofMantissaAndAccuracy (m : ℕ) (a : Accuracy) :
    (ExtendedMantissa.ofMantissaAndAccuracy m a).mantissa = m := by
  cases a with
  | exact => rfl
  | inexact o => cases o <;> rfl

/-- An exact value `x * 2 ^ e` brought to the exponent that it is stored with, before rounding. It has
53 bits then, or fewer if the exponent is the least. -/
structure Aligned (x : ℚ) (m : ℕ) (e : ℤ) (a : Accuracy) (y : ℚ) (em : ExtendedMantissa) (t : ℤ) : Prop where
  shift : shiftToTargetExponent .binary64 m e a = (em, t)
  truncated : Truncated y em
  value : x * 2 ^ e = y * 2 ^ t
  lt : y < 2 ^ 53
  least : -1074 ≤ t
  normal : -1074 < t → 2 ^ 52 ≤ y

/-- Values can be brought there by cutting off bits, if enough of them are at hand. -/
theorem exists_aligned {m : ℕ} {e : ℤ} {a : Accuracy} {x : ℚ} (htrunc : Truncated x (.ofMantissaAndAccuracy m a))
    (he : e ≤ Format.binary64.targetExponent (totalExponent m e)) :
    ∃ y em t, Aligned x m e a y em t := by
  obtain ⟨t, ht⟩ : ∃ t, t = Format.binary64.targetExponent (totalExponent m e) := ⟨_, rfl⟩
  obtain ⟨n, hn⟩ : ∃ n : ℕ, (n : ℤ) = t - e := ⟨(t - e).toNat, by omega⟩
  have hshift := shiftToTargetExponent_eq a ht.symm (ht ▸ he)
  rw [← hn, Int.toNat_natCast] at hshift
  rw [targetExponent_eq, totalExponent_eq] at ht
  have hpow : (0 : ℚ) < 2 ^ n := pow_pos two_pos n
  have hle := htrunc.le
  have hlt := htrunc.lt
  rw [mantissa_ofMantissaAndAccuracy] at hle hlt
  refine ⟨x / 2 ^ n, _, t, hshift, htrunc.shiftRight n, ?_, ?_, ?_, ?_⟩
  · rw [show t = n + e by omega, zpow_add₀ two_ne_zero, zpow_natCast]
    field_simp
  · -- all bits of `m` are below `2 ^ (53 + n)`
    have hbits : m + 1 ≤ 2 ^ (53 + n) :=
      Nat.lt_log2_self.trans_le (Nat.pow_le_pow_right two_pos (by omega))
    have hbits' : (m : ℚ) + 1 ≤ 2 ^ 53 * 2 ^ n := by
      rw [← pow_add]
      exact_mod_cast hbits
    rw [div_lt_iff₀ hpow]
    linarith
  · omega
  · intro hnormal
    have hm : m ≠ 0 := by
      rintro rfl
      rw [Nat.log2_zero] at ht
      omega
    have hbits : 2 ^ (52 + n) ≤ m := by
      rw [show 52 + n = m.log2 by omega]
      exact Nat.log2_self_le hm
    have hbits' : 2 ^ 52 * 2 ^ n ≤ (m : ℚ) := by
      rw [← pow_add]
      exact_mod_cast hbits
    rw [le_div_iff₀ hpow]
    linarith

theorem limit_eq : limit = (2 ^ 53 - 1 / 2) * 2 ^ (971 : ℤ) := by
  have htop : (2 : ℚ) ^ 1024 = 2 ^ 54 * 2 ^ 970 := by rw [← pow_add]
  have hunit : (2 : ℚ) ^ (971 : ℤ) = 2 * 2 ^ 970 := by
    rw [← pow_succ']
    rfl
  rw [limit, htop, hunit]
  generalize (2 : ℚ) ^ 970 = u
  ring

/-- The exponent is too large, or the largest one and the mantissa is rounded up beyond it. -/
theorem Aligned.isInf_iff {x y : ℚ} {m : ℕ} {e t : ℤ} {a : Accuracy} {em : ExtendedMantissa}
    (h : Aligned x m e a y em t) (s : Sign) :
    (Float.Model.pack (roundWithAccuracy .binary64 s m e a)).isInf = true ↔
      972 ≤ t ∨ t = 971 ∧ 2 ^ 53 ≤ em.roundedMantissa := by
  have hm : em.mantissa < 2 ^ 53 := by exact_mod_cast h.truncated.le.trans_lt h.lt
  rw [roundWithAccuracy_eq h.shift hm h.least]
  by_cases hzero : em.roundedMantissa = 0
  · rw [dif_pos hzero]
    have hsmall : ¬ -1074 < t := by
      intro hnormal
      have hround : 2 ^ 52 ≤ em.roundedMantissa :=
        (h.truncated.le_rounded_iff (by norm_num)).mpr (by push_cast; linarith [h.normal hnormal])
      omega
    exact iff_of_false (by rw [isInf_pack]; cases s <;> decide) (by omega)
  · rw [dif_neg hzero]
    by_cases hlt : em.roundedMantissa < 2 ^ 53
    · rw [if_pos hlt, isInf_pack_finite]
      omega
    · rw [if_neg hlt, isInf_pack_finite]
      omega

/-- An exact value is rounded once, from enough of its bits. -/
structure Rounded (s : Sign) (q : ℚ) (u : UnpackedFloat) : Prop where
  aligned : ∃ x m e a y em t, Aligned x m e a y em t ∧ x * 2 ^ e = q ∧ u = roundWithAccuracy .binary64 s m e a

theorem Rounded.of_truncated {m : ℕ} {e : ℤ} {a : Accuracy} {x : ℚ}
    (htrunc : Truncated x (.ofMantissaAndAccuracy m a))
    (he : e ≤ Format.binary64.targetExponent (totalExponent m e)) (s : Sign) :
    Rounded s (x * 2 ^ e) (roundWithAccuracy .binary64 s m e a) := by
  obtain ⟨y, em, t, h⟩ := exists_aligned htrunc he
  exact ⟨x, m, e, a, y, em, t, h, rfl, rfl⟩

/-- What is rounded overflows exactly if its exact value reaches the limit. -/
theorem Rounded.isInf_iff {s : Sign} {q : ℚ} {u : UnpackedFloat} (hu : Rounded s q u) :
    (Float.Model.pack u).isInf = true ↔ limit ≤ q := by
  obtain ⟨x, m, e, a, y, em, t, h, rfl, rfl⟩ := hu
  rw [h.isInf_iff s, h.value, limit_eq, h.truncated.le_rounded_iff (by norm_num)]
  have hunit : (0 : ℚ) < 2 ^ (971 : ℤ) := zpow_pos two_pos _
  have hscale : (0 : ℚ) < 2 ^ t := zpow_pos two_pos _
  have hlt := mul_lt_mul_of_pos_right h.lt hscale
  rcases Int.lt_trichotomy t 971 with hbelow | rfl | habove
  · refine iff_of_false (by omega) (not_le.mpr ?_)
    have hpow : (2 : ℚ) ^ t * 2 ≤ 2 ^ (971 : ℤ) := by
      rw [← zpow_add_one₀ two_ne_zero]
      exact zpow_le_zpow_right₀ one_le_two (by omega)
    generalize (2 : ℚ) ^ t = scale at *
    generalize (2 : ℚ) ^ (971 : ℤ) = unit at *
    linarith
  · rw [mul_le_mul_iff_of_pos_right hunit]
    norm_num
  · refine iff_of_true (by omega) ?_
    have hpow : (2 : ℚ) ^ (971 : ℤ) * 2 ≤ 2 ^ t := by
      rw [← zpow_add_one₀ two_ne_zero]
      exact zpow_le_zpow_right₀ one_le_two (by omega)
    have hge := mul_le_mul_of_nonneg_right (h.normal (by omega)) hscale.le
    generalize (2 : ℚ) ^ t = scale at *
    generalize (2 : ℚ) ^ (971 : ℤ) = unit at *
    linarith

end Offside.Number
