import Offside.Number.Render
import Offside.Proofs.Number.Nearest

/-! The order of the finite numbers, and what is rounded to one of them.

Every finite number has an exact value. Comparing two numbers compares these values, though only the
exponents and the mantissas are looked at. Next to a number there is a gap with no other number in it, so
what lies between the midpoints of its two gaps is rounded to it: no other number is nearer, and one that
is as near gives way to an even mantissa. -/
namespace Offside.Number
open Float.Model Float.Model.UnpackedFloat

/-- The value of a number without its sign. -/
def Binary.size (b : Binary) : ℚ := b.mantissa * 2 ^ b.exponent

def withSign (negative : Bool) (q : ℚ) : ℚ := if negative then -q else q

/-- The value of a finite number. -/
def valueOf (f : Float) : ℚ := withSign (Binary.ofFloat f).negative (Binary.ofFloat f).size

/-- Rounding to the nearest number, and to the one with an even mantissa if two are equally near. From
`limit` on it would be to an infinity. -/
structure RoundsTo (q : ℚ) (f : Float) : Prop where
  nearest : ∀ g : Float, g.isFinite → |q - valueOf f| ≤ |q - valueOf g|
  even : ∀ g : Float, g.isFinite → |q - valueOf f| = |q - valueOf g| →
    valueOf g = valueOf f ∨ (Binary.ofFloat f).mantissa % 2 = 0
  inRange : |q| < limit

theorem Binary.size_nonneg (b : Binary) : 0 ≤ b.size := by
  unfold size
  positivity

section Signs
variable {a b : ℚ} (n n' : Bool)

@[simp] theorem abs_withSign (a : ℚ) : |withSign n a| = |a| := by
  cases n
  · rfl
  · exact abs_neg a

theorem withSign_sub (a b : ℚ) : withSign n a - withSign n b = withSign n (a - b) := by
  cases n
  · rfl
  · show -a - -b = -(a - b)
    ring

theorem abs_withSign_sub_of_ne (h : n ≠ n') (ha : 0 ≤ a) (hb : 0 ≤ b) :
    |withSign n a - withSign n' b| = a + b := by
  cases n <;> cases n'
  · exact absurd rfl h
  · show |a - -b| = _
    rw [sub_neg_eq_add, abs_of_nonneg (add_nonneg ha hb)]
  · show |-a - b| = _
    rw [← neg_add', abs_neg, abs_of_nonneg (add_nonneg ha hb)]
  · exact absurd rfl h

/-- Signs do not bring two values nearer together. -/
theorem abs_sub_le_withSign (ha : 0 ≤ a) (hb : 0 ≤ b) : |a - b| ≤ |withSign n a - withSign n' b| := by
  by_cases h : n = n'
  · rw [h, withSign_sub, abs_withSign]
  · rw [abs_withSign_sub_of_ne n n' h ha hb]
    exact abs_le.mpr ⟨by linarith, by linarith⟩

theorem abs_valueOf (f : Float) : |valueOf f| = (Binary.ofFloat f).size := by
  rw [valueOf, abs_withSign, abs_of_nonneg (Binary.size_nonneg _)]

end Signs

/-! ### Numbers in order -/

section Gaps
variable {m n : ℕ} {e k : ℤ}

/-- With a larger exponent, a number is a multiple of the smaller one's unit. -/
theorem exists_multiple (n : ℕ) (h : e ≤ k) : ∃ c : ℕ, (n : ℚ) * 2 ^ k = c * 2 ^ e := by
  obtain ⟨j, rfl⟩ : ∃ j : ℕ, k = e + j := ⟨(k - e).toNat, by omega⟩
  refine ⟨n * 2 ^ j, ?_⟩
  rw [zpow_add₀ two_ne_zero, zpow_natCast]
  push_cast
  ring

theorem two_mul_zpow_le (h : e < k) : 2 * (2 : ℚ) ^ e ≤ 2 ^ k := by
  rw [mul_comm, ← zpow_add_one₀ two_ne_zero]
  exact zpow_le_zpow_right₀ one_le_two h

/-- Numbers with a smaller exponent are at least half a unit below the powers of two. -/
theorem Stored.le_of_exponent_lt (hn : Stored n k) (h : k < e) : (n : ℚ) * 2 ^ k ≤ (2 ^ 52 - 1 / 2) * 2 ^ e := by
  have hle : (n : ℚ) ≤ 2 ^ 53 - 1 := by
    have hlt : (n : ℚ) + 1 ≤ 2 ^ 53 := by exact_mod_cast hn.lt
    linarith
  have hpow := two_mul_zpow_le h
  calc (n : ℚ) * 2 ^ k ≤ (2 ^ 53 - 1) * 2 ^ k := mul_le_mul_of_nonneg_right hle (zpow_nonneg zero_le_two _)
    _ = (2 ^ 52 - 1 / 2) * (2 * 2 ^ k) := by ring
    _ ≤ (2 ^ 52 - 1 / 2) * 2 ^ e := mul_le_mul_of_nonneg_left hpow (by norm_num)

theorem Stored.two_pow_le (hm : Stored m e) (hn : Stored n k) (h : k < e) : (2 : ℚ) ^ 52 ≤ m := by
  exact_mod_cast hm.normal (hn.least.trans_lt h)

theorem Stored.lt_of_exponent_lt (hm : Stored m e) (hn : Stored n k) (h : k < e) :
    (n : ℚ) * 2 ^ k < m * 2 ^ e :=
  calc (n : ℚ) * 2 ^ k ≤ (2 ^ 52 - 1 / 2) * 2 ^ e := hn.le_of_exponent_lt h
    _ < m * 2 ^ e := mul_lt_mul_of_pos_right (by linarith [hm.two_pow_le hn h]) (zpow_pos two_pos _)

/-- Numbers are compared by their exponents first. -/
theorem Stored.compare_eq (hm : Stored m e) (hn : Stored n k) :
    (compare e k).then (compare m n) = compare ((m : ℚ) * 2 ^ e) (n * 2 ^ k) := by
  rcases lt_trichotomy e k with h | rfl | h
  · rw [compare_lt_iff_lt.mpr h, compare_lt_iff_lt.mpr (hn.lt_of_exponent_lt hm h)]
    rfl
  · have hunit : (0 : ℚ) < 2 ^ e := zpow_pos two_pos _
    rw [compare_eq_iff_eq.mpr rfl, Ordering.eq_then]
    rcases lt_trichotomy m n with h | rfl | h
    · rw [compare_lt_iff_lt.mpr h,
        compare_lt_iff_lt.mpr (mul_lt_mul_of_pos_right (by exact_mod_cast h) hunit)]
    · rw [compare_eq_iff_eq.mpr rfl, compare_eq_iff_eq.mpr rfl]
    · rw [compare_gt_iff_gt.mpr h,
        compare_gt_iff_gt.mpr (mul_lt_mul_of_pos_right (by exact_mod_cast h) hunit)]
  · rw [compare_gt_iff_gt.mpr h, compare_gt_iff_gt.mpr (hm.lt_of_exponent_lt hn h)]
    rfl

/-- The gap below a number: twice the way to the midpoint. -/
theorem Stored.gap_below (hm : Stored m e) (hn : Stored n k) (h : (n : ℚ) * 2 ^ k < m * 2 ^ e) :
    (n : ℚ) * 2 ^ k ≤ (m - 2 * downTo m e) * 2 ^ e := by
  have hunit : (0 : ℚ) < 2 ^ e := zpow_pos two_pos _
  rcases le_or_gt e k with hle | hlt
  · obtain ⟨c, hc⟩ := exists_multiple n hle
    rw [hc] at h ⊢
    have hcm : (c : ℚ) + 1 ≤ m := by exact_mod_cast lt_of_mul_lt_mul_right h hunit.le
    exact mul_le_mul_of_nonneg_right (by linarith [downTo_le m e]) hunit.le
  · refine (hn.le_of_exponent_lt hlt).trans (mul_le_mul_of_nonneg_right ?_ hunit.le)
    have hge := hm.normal (hn.least.trans_lt hlt)
    unfold downTo
    split
    case isTrue hpower =>
      rw [hpower.1]
      norm_num
    case isFalse hpower =>
      have hne : m ≠ 2 ^ 52 := fun heq => hpower ⟨heq, hn.least.trans_lt hlt⟩
      have hgt : (2 : ℚ) ^ 52 + 1 ≤ m := by exact_mod_cast lt_of_le_of_ne hge hne.symm
      linarith

/-- The gap above a number: one unit. -/
theorem Stored.gap_above (hm : Stored m e) (hn : Stored n k) (h : (m : ℚ) * 2 ^ e < n * 2 ^ k) :
    (m + 1 : ℚ) * 2 ^ e ≤ n * 2 ^ k := by
  have hunit : (0 : ℚ) < 2 ^ e := zpow_pos two_pos _
  rcases le_or_gt e k with hle | hlt
  · obtain ⟨c, hc⟩ := exists_multiple n hle
    rw [hc] at h ⊢
    have hmc : (m : ℚ) + 1 ≤ c := by exact_mod_cast lt_of_mul_lt_mul_right h hunit.le
    exact mul_le_mul_of_nonneg_right hmc hunit.le
  · exact absurd (h.trans (hm.lt_of_exponent_lt hn hlt)) (lt_irrefl _)

end Gaps

/-! ### What is near a number is rounded to it -/

/-- The size of a finite number is zero, or it is stored with a mantissa. -/
theorem size_cases {f : Float} (h : f.isFinite) :
    (Binary.ofFloat f).size = 0 ∨ ∃ n k, Stored n k ∧ (Binary.ofFloat f).size = n * 2 ^ k := by
  rcases toModel_of_isFinite h rfl with ⟨hzero, -⟩ | ⟨hm, -⟩
  · left
    simp [Binary.size, hzero]
  · exact .inr ⟨_, _, hm, rfl⟩

section Near
variable {q s s' : ℚ} {m : ℕ} {e : ℤ}

theorem Near.pos (h : Near q m e) (hm : Stored m e) : 0 < q := by
  have hpos : (1 : ℚ) ≤ m := by exact_mod_cast hm.pos
  have hlow : 0 < (m - downTo m e) * (2 : ℚ) ^ e := mul_pos (by linarith [downTo_le m e]) (zpow_pos two_pos _)
  exact hlow.trans_le h.low

/-- No number is nearer, and none is equally near if the mantissa is odd. -/
theorem Near.dist_le (h : Near q m e) (hm : Stored m e) (hs : s = 0 ∨ ∃ n k, Stored n k ∧ s = n * 2 ^ k) :
    |q - m * 2 ^ e| ≤ |q - s| ∧ (|q - m * 2 ^ e| = |q - s| → s = m * 2 ^ e ∨ m % 2 = 0) := by
  have hunit : (0 : ℚ) < 2 ^ e := zpow_pos two_pos _
  have hlow := h.low
  have hhigh := h.high
  rw [sub_mul] at hlow
  rw [add_mul] at hhigh
  rcases lt_trichotomy s (m * 2 ^ e) with hlt | rfl | hgt
  · have hgap : s ≤ m * 2 ^ e - 2 * (downTo m e * 2 ^ e) := by
      rcases hs with rfl | ⟨n, k, hn, rfl⟩
      · have hpos : (1 : ℚ) ≤ m := by exact_mod_cast hm.pos
        have hnonneg : 0 ≤ (m - 2 * downTo m e) * (2 : ℚ) ^ e :=
          mul_nonneg (by linarith [downTo_le m e]) hunit.le
        linarith
      · linarith [hm.gap_below hn hlt]
    have hdown := mul_pos (downTo_pos m e) hunit
    rw [abs_of_nonneg (show 0 ≤ q - s by linarith)]
    refine ⟨abs_le.mpr ⟨by linarith, by linarith⟩, fun htie => .inr ?_⟩
    by_contra hne
    have hodd : m % 2 = 1 := by omega
    have hopen := h.open_low hodd
    rw [downTo_of_odd hodd] at hgap
    rw [sub_mul] at hopen
    rcases abs_cases (q - m * 2 ^ e) with ⟨habs, -⟩ | ⟨habs, -⟩ <;> linarith
  · exact ⟨le_rfl, fun _ => .inl rfl⟩
  · have hgap : m * 2 ^ e + 2 ^ e ≤ s := by
      rcases hs with rfl | ⟨n, k, hn, rfl⟩
      · exact absurd (mul_nonneg (Nat.cast_nonneg m) hunit.le) (not_le.mpr hgt)
      · linarith [hm.gap_above hn hgt]
    rw [abs_of_nonpos (show q - s ≤ 0 by linarith)]
    have hdown := mul_le_mul_of_nonneg_right (downTo_le m e) hunit.le
    refine ⟨abs_le.mpr ⟨by linarith, by linarith⟩, fun htie => .inr ?_⟩
    by_contra hne
    have hopen := h.open_high (by omega)
    rw [add_mul] at hopen
    rcases abs_cases (q - m * 2 ^ e) with ⟨habs, -⟩ | ⟨habs, -⟩ <;> linarith

/-- What is near a number does not overflow. -/
theorem Near.lt_limit (h : Near q m e) (hm : Stored m e) : q < limit := by
  have hunit : (0 : ℚ) < 2 ^ e := zpow_pos two_pos _
  have hbound : (2 ^ 53 - 1 / 2) * (2 : ℚ) ^ e ≤ limit := by
    rw [limit_eq]
    exact mul_le_mul_of_nonneg_left (zpow_le_zpow_right₀ one_le_two hm.largest) (by norm_num)
  refine lt_of_lt_of_le ?_ hbound
  have hlt := hm.lt
  rcases Nat.mod_two_eq_zero_or_one m with heven | hodd
  · have hle : (m : ℚ) + 2 ≤ 2 ^ 53 := by exact_mod_cast (by omega : m + 2 ≤ 2 ^ 53)
    exact h.high.trans_lt (mul_lt_mul_of_pos_right (by linarith) hunit)
  · have hle : (m : ℚ) + 1 ≤ 2 ^ 53 := by exact_mod_cast hlt
    exact (h.open_high hodd).trans_le (mul_le_mul_of_nonneg_right (by linarith) hunit.le)

end Near

section Rounding
variable {f : Float} {q : ℚ}

theorem roundsTo_zero (h : (Binary.ofFloat f).mantissa = 0) : RoundsTo 0 f := by
  have hvalue : valueOf f = 0 := by
    rw [← abs_eq_zero, abs_valueOf, Binary.size, h, Nat.cast_zero, zero_mul]
  refine ⟨fun g _ => ?_, fun g _ _ => .inr (by rw [h]), ?_⟩
  · rw [hvalue, sub_zero, abs_zero]
    exact abs_nonneg _
  · rw [abs_zero]
    exact zero_lt_one.trans one_lt_limit

/-- What is near a number is rounded to it, with its sign. -/
theorem roundsTo_of_near (hm : Stored (Binary.ofFloat f).mantissa (Binary.ofFloat f).exponent)
    (h : Near q (Binary.ofFloat f).mantissa (Binary.ofFloat f).exponent) :
    RoundsTo (withSign (Binary.ofFloat f).negative q) f := by
  have hq : 0 < q := h.pos hm
  have hdist : |withSign (Binary.ofFloat f).negative q - valueOf f| = |q - (Binary.ofFloat f).size| := by
    rw [valueOf, withSign_sub, abs_withSign]
  refine ⟨fun g hg => ?_, fun g hg htie => ?_, ?_⟩
  · rw [hdist]
    exact (h.dist_le hm (size_cases hg)).1.trans (abs_sub_le_withSign _ _ hq.le (Binary.size_nonneg _))
  · rw [hdist] at htie
    obtain ⟨hle, heven⟩ := h.dist_le hm (size_cases hg)
    have hge := abs_sub_le_withSign (Binary.ofFloat f).negative (Binary.ofFloat g).negative hq.le
      (Binary.size_nonneg (Binary.ofFloat g))
    refine (heven (le_antisymm hle (hge.trans_eq htie.symm))).imp_left fun hsize => ?_
    -- With the other sign the number would be farther away, as neither of the two is zero.
    have hsign : (Binary.ofFloat f).negative = (Binary.ofFloat g).negative := by
      by_contra hne
      have hpos : 0 < (Binary.ofFloat f).size :=
        mul_pos (by exact_mod_cast hm.pos) (zpow_pos two_pos _)
      rw [valueOf, abs_withSign_sub_of_ne _ _ hne hq.le (Binary.size_nonneg _), hsize] at htie
      have hlt : |q - (Binary.ofFloat f).size| < q + (Binary.ofFloat f).size :=
        abs_lt.mpr ⟨by linarith, by linarith⟩
      exact absurd htie hlt.ne
    rw [valueOf, valueOf, hsign, hsize]
    rfl
  · rw [abs_withSign, abs_of_pos hq]
    exact h.lt_limit hm

end Rounding

/-! ### Comparing numbers -/

theorem unpack_pack_zero (s : Sign) : (Float.Model.pack (.zero s)).unpack = .zero s := by
  cases s <;> rfl

/-- A number with the least exponent and fewer bits is stored as it is, too. -/
theorem unpack_pack_subnormal {s : Sign} {m : ℕ} {hm : 0 < m} (hlt : m < 2 ^ 52) :
    (Float.Model.pack (.finite s m (-1074) hm)).unpack = .finite s m (-1074) hm := by
  have hlog := log2_lt_of_lt hm hlt
  have hpack : UnpackedFloat.pack .binary64 (.finite s m (-1074) hm) =
      packComponents .binary64 s 0#11 (BitVec.ofNat 52 m) := by
    unfold UnpackedFloat.pack
    dsimp only
    rw [if_neg (by decide), if_neg (by show ¬ _ + 1 = 53; omega)]
  have hmantissa : (BitVec.ofNat 52 m).toNat = m := Nat.mod_eq_of_lt hlt
  have hnotZero : BitVec.ofNat 52 m ≠ 0#52 := by
    intro h
    have hvalue := congrArg BitVec.toNat h
    rw [hmantissa] at hvalue
    exact hm.ne' hvalue
  show UnpackedFloat.unpack .binary64 (UnpackedFloat.pack .binary64 (.finite s m (-1074) hm)) = _
  rw [hpack]
  unfold UnpackedFloat.unpack
  dsimp only
  rw [if_neg (by rw [unpackExponent_packComponents]; decide), if_pos unpackExponent_packComponents,
    dif_neg (by rwa [unpackMantissa_packComponents])]
  refine finite_congr ?_ ?_ ?_
  · rw [unpackSign_packComponents, ofBitVec_toBitVec]
  · rw [unpackMantissa_packComponents, hmantissa]
  · rw [unpackExponent_packComponents]
    rfl

theorem Stored.unpack_pack {m : ℕ} {e : ℤ} (h : Stored m e) (s : Sign) :
    (Float.Model.pack (.finite s m e h.pos)).unpack = .finite s m e h.pos := by
  rcases Nat.lt_or_ge m (2 ^ 52) with hlt | hge
  · obtain rfl : e = -1074 := by
      by_contra hne
      have hnormal := h.normal (lt_of_le_of_ne h.least (Ne.symm hne))
      omega
    exact unpack_pack_subnormal hlt
  · exact unpack_pack_normal ((Nat.log2_eq_iff h.pos.ne').mpr ⟨hge, h.lt⟩) h.least h.largest

/-- An unpacked number without a sign, and its value. -/
inductive Measures : UnpackedFloat → ℚ → Prop
  | zero : Measures (.zero .positive) 0
  | finite {m : ℕ} {e : ℤ} (h : Stored m e) : Measures (.finite .positive m e h.pos) (m * 2 ^ e)

theorem Measures.compare_eq {x y : UnpackedFloat} {q r : ℚ} (hx : Measures x q) (hy : Measures y r) :
    x.compare y = some (compare q r) := by
  have hpos : ∀ {m : ℕ} {e : ℤ}, Stored m e → (0 : ℚ) < m * 2 ^ e := fun h =>
    mul_pos (by exact_mod_cast h.pos) (zpow_pos two_pos _)
  cases hx with
  | zero =>
    cases hy with
    | zero => rw [compare_eq_iff_eq.mpr rfl]; rfl
    | finite h => rw [compare_lt_iff_lt.mpr (hpos h)]; rfl
  | finite h =>
    cases hy with
    | zero => rw [compare_gt_iff_gt.mpr (hpos h)]; rfl
    | finite h' => exact congrArg some (h.compare_eq h')

section Comparing
variable {f g : Float} {q r : ℚ}

theorem beq_iff (hf : Measures f.toModel.unpack q) (hg : Measures g.toModel.unpack r) :
    (f == g) = true ↔ q = r := by
  show (f.toModel.unpack.compare g.toModel.unpack == some .eq) = true ↔ _
  rw [hf.compare_eq hg, beq_iff_eq, Option.some_inj, compare_eq_iff_eq]

theorem lt_iff (hf : Measures f.toModel.unpack q) (hg : Measures g.toModel.unpack r) : f < g ↔ q < r := by
  refine decide_eq_true_iff.trans ?_
  show (f.toModel.unpack.compare g.toModel.unpack == some .lt) = true ↔ _
  rw [hf.compare_eq hg, beq_iff_eq, Option.some_inj, compare_lt_iff_lt]

theorem le_iff (hf : Measures f.toModel.unpack q) (hg : Measures g.toModel.unpack r) : f ≤ g ↔ q ≤ r := by
  refine decide_eq_true_iff.trans ?_
  show (f.toModel.unpack.compare g.toModel.unpack).any (·.isLE) = true ↔ _
  rw [hf.compare_eq hg, Option.any_some, ← compare_le_iff_le, Ordering.isLE_iff_ne_gt]

theorem measures_abs (h : f.isFinite) : Measures f.abs.toModel.unpack (Binary.ofFloat f).size := by
  show Measures (Float.Model.pack f.toModel.unpack.abs).unpack _
  rcases toModel_of_isFinite h rfl with ⟨hzero, hmodel⟩ | ⟨hm, hmodel⟩
  · rw [hmodel, unpack_pack_zero, Binary.size, hzero, Nat.cast_zero, zero_mul]
    exact unpack_pack_zero .positive ▸ .zero
  · rw [hmodel, hm.unpack_pack]
    exact hm.unpack_pack .positive ▸ .finite hm

theorem measures_zero : Measures (0 : Float).toModel.unpack 0 := .zero

theorem measures_tenMillion : Measures (10000000 : Float).toModel.unpack (10 ^ 7) := by
  have hstored : Stored (10 ^ 7 * 2 ^ 29) (-29) := ⟨by norm_num, by norm_num, by norm_num, by norm_num, by norm_num⟩
  have hvalue : ((10 ^ 7 * 2 ^ 29 : ℕ) : ℚ) * 2 ^ (-29 : ℤ) = 10 ^ 7 := by norm_num
  exact hvalue ▸ .finite hstored

theorem stored_thousandth : Stored 4611686018427388 (-62) :=
  ⟨by norm_num, by norm_num, by norm_num, by norm_num, by norm_num⟩

/-- The number that stands for a thousandth is a little larger. -/
theorem measures_thousandth : Measures (0.001 : Float).toModel.unpack ((4611686018427388 : ℕ) * 2 ^ (-62 : ℤ)) :=
  .finite stored_thousandth

/-- There is no number between a thousandth and the number that stands for it. -/
theorem thousandth_le_iff (h : f.isFinite) :
    ((4611686018427388 : ℕ) : ℚ) * 2 ^ (-62 : ℤ) ≤ (Binary.ofFloat f).size ↔
      1 / 1000 ≤ (Binary.ofFloat f).size := by
  refine ⟨fun hle => le_trans (by norm_num) hle, fun hle => ?_⟩
  by_contra hlt
  rcases size_cases h with hzero | ⟨n, k, hn, hsize⟩
  · rw [hzero] at hle
    norm_num at hle
  · rw [hsize] at hle hlt
    have hgap := stored_thousandth.gap_below hn (not_le.mp hlt)
    have hdown : downTo 4611686018427388 (-62) = 1 / 2 := if_neg (by norm_num)
    rw [hdown] at hgap
    have hsmall : (((4611686018427388 : ℕ) : ℚ) - 2 * (1 / 2)) * 2 ^ (-62 : ℤ) < 1 / 1000 := by norm_num
    linarith

/-- A number other than zero whose size is below a thousandth, or ten million at least. -/
def IsFar (f : Float) : Prop := valueOf f ≠ 0 ∧ (|valueOf f| < 1 / 1000 ∨ 10 ^ 7 ≤ |valueOf f|)

/-- The numbers that are shown without an exponent are the others. -/
theorem plain_iff (h : f.isFinite) :
    (f.abs == 0 || (decide (0.001 ≤ f.abs) && decide (f.abs < 10000000))) = true ↔ ¬ IsFar f := by
  have hsize := measures_abs h
  rw [IsFar, Bool.or_eq_true, Bool.and_eq_true, decide_eq_true_iff, decide_eq_true_iff, beq_iff hsize measures_zero,
    le_iff measures_thousandth hsize, lt_iff hsize measures_tenMillion, thousandth_le_iff h, ← abs_ne_zero,
    abs_valueOf, not_and_or, not_or, not_lt, not_le, ne_eq, not_not]

end Comparing

end Offside.Number
