import Offside.Number.Render
import Offside.Proofs.Number.Nearest
import Offside.Proofs.Number.Numeral

/-! The literal that stands for a number is read back as that number.

A literal is a numeral in the digits `0` to `9` whose value is the shortest decimal of the number, and
that decimal is stored as the number again. So a number that has a literal without a sign is known by it.
Conversely, what is read from a numeral has such a literal. -/
namespace Offside.Number
open Float.Model Float.Model.UnpackedFloat

/-! ### Decimals as numerals -/

theorem isDecimalDigit_of_isDigit {d : Char} (h : d.isDigit) : Text.isDecimalDigit d := by
  have hfirst : ∀ k < 128, 48 ≤ k ∧ k ≤ 57 → Text.decimalDigitRanges.holds k = true := by decide
  simp only [Char.isDigit, Bool.and_eq_true, decide_eq_true_eq] at h
  have hge : 48 ≤ d.toNat := UInt32.le_iff_toNat_le.mp h.1
  have hle : d.toNat ≤ 57 := UInt32.le_iff_toNat_le.mp h.2
  exact hfirst d.toNat (by omega) ⟨hge, hle⟩

/-- Digits `0` to `9`, and perhaps more of them after a point, are a numeral. -/
theorem numeral_of_digits (whole : List Char) (fraction : Option (List Char)) (hne : whole ≠ [])
    (hdigits : ∀ c ∈ whole ++ fraction.getD [], c.isDigit) :
    ∃ n : Numeral, n.chars = whole ++ fraction.elim [] ('.' :: ·) ∧ n.IsAscii ∧
      n.value = Nat.ofDigitChars 10 (whole ++ fraction.getD []) 0 / 10 ^ (fraction.getD []).length :=
  ⟨⟨whole, fraction, hne, fun c hc => isDecimalDigit_of_isDigit (hdigits c hc)⟩, rfl, hdigits, rfl⟩

theorem isDigit_of_mem_replicate {k : ℕ} {c : Char} (h : c ∈ List.replicate k '0') : c.isDigit := by
  rw [List.eq_of_mem_replicate h]
  rfl

namespace Decimal

theorem isDigit_of_mem_digitText {d : Decimal} {c : Char} (h : c ∈ d.digitText) : c.isDigit :=
  Nat.isDigit_of_mem_toDigits (by decide) (by decide) h

theorem ofDigitChars_digitText (d : Decimal) : Nat.ofDigitChars 10 d.digitText 0 = d.digits :=
  Nat.ofDigitChars_ten_toDigits

theorem toRat_of_neg {d : Decimal} {k : ℕ} (h : d.exponent = -k) : d.toRat = d.digits / 10 ^ k := by
  rw [toRat, h, zpow_neg, zpow_natCast, div_eq_mul_inv]

/-- The digits of a decimal, with zeros after them. -/
theorem exists_numeral_whole (d : Decimal) (k : ℕ) :
    ∃ n : Numeral, n.chars = d.digitText ++ List.replicate k '0' ∧ n.IsAscii ∧ n.value = d.digits * 10 ^ k := by
  obtain ⟨n, hchars, hascii, hvalue⟩ := numeral_of_digits (d.digitText ++ List.replicate k '0') none
    (by simp [Nat.toDigits_ne_nil, digitText]) (by
      intro c hc
      rw [Option.getD_none, List.append_nil] at hc
      exact (List.mem_append.mp hc).elim isDigit_of_mem_digitText isDigit_of_mem_replicate)
  refine ⟨n, ?_, hascii, ?_⟩
  · rw [hchars, Option.elim_none, List.append_nil]
  · rw [hvalue, Option.getD_none, List.append_nil, Nat.ofDigitChars_append, Nat.ofDigitChars_replicate_zero,
      ofDigitChars_digitText]
    simp [mul_comm]

/-- The digits of a decimal, with a point among them. -/
theorem exists_numeral_pointed (d : Decimal) {w : ℕ} (hw : 0 < w) :
    ∃ n : Numeral, n.chars = d.digitText.take w ++ '.' :: d.digitText.drop w ∧ n.IsAscii ∧
      n.value = d.digits / 10 ^ (d.digitText.length - w) := by
  have hwhole : d.digitText.take w ≠ [] := by
    rw [ne_eq, List.take_eq_nil_iff]
    rintro (hzero | hnil)
    · omega
    · exact Nat.toDigits_ne_nil hnil
  obtain ⟨n, hchars, hascii, hvalue⟩ := numeral_of_digits (d.digitText.take w) (some (d.digitText.drop w)) hwhole (by
    intro c hc
    rw [Option.getD_some, List.take_append_drop] at hc
    exact isDigit_of_mem_digitText hc)
  rw [Option.getD_some, List.take_append_drop, List.length_drop, ofDigitChars_digitText] at hvalue
  exact ⟨n, hchars, hascii, hvalue⟩

/-- The digits of a decimal, with zeros and a point before them. -/
theorem exists_numeral_small (d : Decimal) (z : ℕ) :
    ∃ n : Numeral, n.chars = '0' :: '.' :: (List.replicate z '0' ++ d.digitText) ∧ n.IsAscii ∧
      n.value = d.digits / 10 ^ (z + d.digitText.length) := by
  have hfront : Nat.ofDigitChars 10 (['0'] ++ (List.replicate z '0' ++ d.digitText)) 0 = d.digits := by
    rw [List.singleton_append, Nat.ofDigitChars_cons, Nat.ofDigitChars_append, Nat.ofDigitChars_replicate_zero]
    exact ofDigitChars_digitText d
  obtain ⟨n, hchars, hascii, hvalue⟩ := numeral_of_digits ['0'] (some (List.replicate z '0' ++ d.digitText))
    (by simp) (by
      intro c hc
      rw [Option.getD_some, List.singleton_append, List.mem_cons, List.mem_append] at hc
      rcases hc with rfl | hzero | hdigit
      · rfl
      · exact isDigit_of_mem_replicate hzero
      · exact isDigit_of_mem_digitText hdigit)
  rw [Option.getD_some, List.length_append, List.length_replicate, hfront] at hvalue
  exact ⟨n, hchars, hascii, hvalue⟩

/-- A decimal is written as a numeral of the same value. -/
theorem exists_numeral (d : Decimal) :
    ∃ n : Numeral, n.chars = d.positional ∧ n.IsAscii ∧ n.value = d.toRat := by
  unfold positional
  dsimp only
  split
  case isTrue hexponent =>
    obtain ⟨k, hk⟩ := Int.eq_ofNat_of_zero_le hexponent
    rw [toRat, hk]
    exact_mod_cast d.exists_numeral_whole k
  case isFalse hneg =>
    obtain ⟨k, hk⟩ : ∃ k : ℕ, d.exponent = -k := ⟨(-d.exponent).toNat, by omega⟩
    rw [toRat_of_neg hk]
    split
    case isTrue hpoint =>
      obtain ⟨w, hw⟩ : ∃ w : ℕ, (w : ℤ) = d.digitText.length + d.exponent := ⟨_, Int.toNat_of_nonneg hpoint.le⟩
      obtain rfl : d.digitText.length - w = k := by omega
      rw [← hw, Int.toNat_natCast]
      exact d.exists_numeral_pointed (by omega)
    case isFalse hpoint =>
      obtain ⟨z, hz⟩ : ∃ z : ℕ, (z : ℤ) = -(d.digitText.length + d.exponent) := ⟨_, Int.toNat_of_nonneg (by omega)⟩
      obtain rfl : z + d.digitText.length = k := by omega
      rw [← hz, Int.toNat_natCast]
      exact d.exists_numeral_small z

end Decimal

/-! ### Literals -/

/-- A finite number without a sign. -/
def isUnsigned (x : Float) : Bool := x.isFinite && !(Binary.ofFloat x).negative

section Literals
variable {x : Float}

theorem toFloat_ext {x y : Float} (h : x.toModel = y.toModel) : x = y := by
  cases x
  cases y
  cases h
  rfl

theorem not_isNaN_of_isFinite (h : x.isFinite = true) : x.isNaN = false ∧ x.isInf = false := by
  have hfinite : x.toModel.unpack.isFinite = true := h
  show x.toModel.unpack.isNaN = false ∧ x.toModel.unpack.isInf = false
  generalize x.toModel.unpack = u at hfinite
  cases u with
  | infinity | notANumber => cases hfinite
  | zero | finite => exact ⟨rfl, rfl⟩

theorem literal_of_isUnsigned (h : isUnsigned x) :
    literal x = String.ofList (Binary.ofFloat x).decimal.positional := by
  rw [isUnsigned, Bool.and_eq_true, Bool.not_eq_true'] at h
  obtain ⟨hnan, hinf⟩ := not_isNaN_of_isFinite h.1
  simp only [literal, hnan, hinf, Bool.false_eq_true, if_false, h.2, signed]

/-- The number nearest to the decimal of a number is that number. -/
theorem nearest_eq {d : Decimal} (h : isUnsigned x) (hd : d.toRat = (Binary.ofFloat x).decimal.toRat) :
    d.nearest = x := by
  rw [isUnsigned, Bool.and_eq_true, Bool.not_eq_true'] at h
  obtain ⟨hfinite, hsign⟩ := h
  have hstored := d.storedAs_nearest
  rw [hd, Binary.decimal] at hstored
  rcases toModel_of_isFinite hfinite rfl with ⟨hzero, hmodel⟩ | ⟨hm, hmodel⟩
  · have hdigits : d.digits = 0 := by
      rw [Binary.decimal, if_pos hzero] at hd
      have htoRat : (d.digits : ℚ) * 10 ^ d.exponent = 0 := by simpa [Decimal.toRat] using hd
      exact_mod_cast (mul_eq_zero.mp htoRat).resolve_right (zpow_ne_zero _ (by norm_num))
    have hnearest : d.nearest = 0 := by simp [Decimal.nearest, hdigits]
    rw [hsign] at hmodel
    rw [hnearest]
    exact toFloat_ext hmodel.symm
  · rw [hsign] at hmodel
    rw [if_neg hm.pos.ne'] at hstored
    exact toFloat_ext ((hstored.eq_finite hm (Binary.near_shortest hm)).trans hmodel.symm)

/-- **A number is read back from its literal.** The literal is a numeral in the digits `0` to `9`. -/
theorem read?_literal (h : isUnsigned x) :
    ∃ n : Numeral, literal x = n.text ∧ n.IsAscii ∧ read? n.text = some x := by
  obtain ⟨n, hchars, hascii, hvalue⟩ := (Binary.ofFloat x).decimal.exists_numeral
  refine ⟨n, ?_, hascii, ?_⟩
  · rw [literal_of_isUnsigned h, Numeral.text, hchars]
  · have hnearest : n.decimal.nearest = x := nearest_eq h (n.toRat_decimal.trans hvalue)
    rw [isUnsigned, Bool.and_eq_true] at h
    rw [n.read?_text hascii, hnearest, (not_isNaN_of_isFinite h.1).2]
    rfl

/-! ### What is read -/

theorem isUnsigned_of_lt (h : x.toBits.toNat < 2047 * 2 ^ 52) : isUnsigned x := by
  have hfinite : x.isFinite = true := isFinite_iff.mpr (by omega)
  have hnegative : (Binary.ofFloat x).negative = (x.toBits.toNat / 2 ^ 63 == 1) := by
    unfold Binary.ofFloat Binary.ofBits
    dsimp only
    split <;> rfl
  have hsign : x.toBits.toNat / 2 ^ 63 = 0 := by omega
  rw [isUnsigned, hfinite, hnegative, hsign]
  rfl

/-- The bits of a number without a sign are below those of the infinity. -/
theorem pack_finite_lt {m : ℕ} {e : ℤ} {hm : 0 < m} (he : e < 972) :
    (UnpackedFloat.pack .binary64 (.finite .positive m e hm)).toNat < 2047 * 2 ^ 52 := by
  obtain ⟨biased, hbiased⟩ : ∃ biased : ℕ, (e + (Format.binary64.exponentBias : ℤ) + (52 : ℕ)).toNat = biased := ⟨_, rfl⟩
  have hsmall : biased < 2047 := by
    have hbias : (e + 1023 + 52).toNat = biased := hbiased
    omega
  unfold UnpackedFloat.pack
  dsimp only
  rw [hbiased, if_neg (by omega)]
  split <;> rw [toNat_packComponents]
  · have hexponent : (BitVec.ofNat 11 biased).toNat = biased := Nat.mod_eq_of_lt (by omega)
    have hmantissa := (BitVec.ofNat 52 m).isLt
    have hsign : (Sign.toBitVec .positive).toNat = 0 := rfl
    rw [hexponent, hsign]
    omega
  · have hmantissa := (BitVec.ofNat 52 m).isLt
    have hsign : (Sign.toBitVec .positive).toNat = 0 := rfl
    have hexponent : (0#11).toNat = 0 := rfl
    rw [hexponent, hsign]
    omega

/-- What a value is stored as has no sign. -/
theorem StoredAs.isUnsigned {q : ℚ} (h : StoredAs q x) (hfinite : x.isInf = false) : isUnsigned x := by
  have hbits : ∀ {u}, x.toModel = Float.Model.pack u → x.toBits.toNat = (UnpackedFloat.pack .binary64 u).toNat :=
    fun hmodel => congrArg (fun m : Float.Model => m.toBits.toNat) hmodel
  apply isUnsigned_of_lt
  cases h with
  | huge hmodel _ =>
    have hinf : x.toModel.isInf = false := hfinite
    rw [hmodel] at hinf
    cases hinf
  | tiny hmodel _ =>
    rw [hbits hmodel]
    decide
  | rounded hmodel hrounded =>
    have hinf : x.toModel.isInf = false := hfinite
    obtain ⟨x', m, e, a, y, em, t, h, -, rfl⟩ := hrounded
    have hem : em.mantissa < 2 ^ 53 := by exact_mod_cast h.truncated.le.trans_lt h.lt
    rw [hbits hmodel]
    rw [hmodel] at hinf
    rw [roundWithAccuracy_eq h.shift hem h.least] at hinf ⊢
    -- Whatever it is rounded to, an exponent that did not fit would have made it an infinity.
    have hexponent : ∀ {m : ℕ} {e : ℤ} {hm : 0 < m},
        (Float.Model.pack (.finite .positive m e hm)).isInf = false → e < 972 := by
      intro m e hm hnot
      by_contra hge
      rw [isInf_pack_finite.mpr (not_lt.mp hge)] at hnot
      cases hnot
    by_cases hzero : em.roundedMantissa = 0
    · rw [dif_pos hzero]
      decide
    rw [dif_neg hzero] at hinf ⊢
    by_cases hlt : em.roundedMantissa < 2 ^ 53
    · rw [if_pos hlt] at hinf ⊢
      exact pack_finite_lt (hexponent hinf)
    · rw [if_neg hlt] at hinf ⊢
      exact pack_finite_lt (hexponent hinf)

/-- What is read from a numeral has no sign. -/
theorem isUnsigned_of_read? {n : Numeral} (h : read? n.text = some x) : isUnsigned x := by
  have hascii : n.IsAscii := (n.isSome_read?_text.mp (by rw [h]; rfl)).1
  rw [n.read?_text hascii] at h
  split at h
  case isTrue => cases h
  case isFalse hfinite =>
    cases h
    exact n.decimal.storedAs_nearest.isUnsigned (by simpa using hfinite)

end Literals

end Offside.Number
