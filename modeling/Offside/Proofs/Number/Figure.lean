import Mathlib.Tactic.IntervalCases
import Offside.Proofs.Number.Literal
import Offside.Proofs.Number.Order

/-! Numbers as the console shows them.

A figure is a numeral, perhaps with a minus before it and a power of ten after it. Its text says what it
is, so the rational that a text stands for is well defined. What the console shows of a finite number and
the literal of that number are figures of one value, and this value is rounded to the number. So no two
finite numbers are shown alike. -/
namespace Offside.Number

/-- Digits that do not start with a zero, perhaps after a minus. -/
structure Power where
  negative : Bool
  digits : List Char
  ne_nil : digits ≠ []
  isDigit : ∀ d ∈ digits, d.isDigit
  head_ne_zero : digits.head? ≠ some '0'

namespace Power

def chars (p : Power) : List Char := if p.negative then '-' :: p.digits else p.digits

def value (p : Power) : ℤ :=
  if p.negative then -(Nat.ofDigitChars 10 p.digits 0 : ℤ) else Nat.ofDigitChars 10 p.digits 0

end Power

/-- A numeral in the digits `0` to `9`, perhaps with a sign and a power of ten. -/
structure Figure where
  negative : Bool
  numeral : Numeral
  power : Option Power
  isAscii : numeral.IsAscii

namespace Figure

def chars (x : Figure) : List Char := x.numeral.chars ++ x.power.elim [] ('E' :: ·.chars)

def text (x : Figure) : String := String.ofList (if x.negative then '-' :: x.chars else x.chars)

/-- What a figure stands for. -/
def value (x : Figure) : ℚ := withSign x.negative (x.numeral.value * 10 ^ x.power.elim 0 Power.value)

/-- At least one digit stands after the point, and before it only one if there is a power. -/
def IsPointed (x : Figure) : Prop :=
  (∃ ds, x.numeral.fraction = some ds ∧ ds ≠ []) ∧ (x.power = none ∨ x.numeral.whole.length = 1)

end Figure

/-! ### A text is the text of one figure -/

section Unique
variable {ds es cs cs' : List Char}

theorem append_inj_of_digits (hds : ∀ d ∈ ds, d.isDigit) (hes : ∀ d ∈ es, d.isDigit)
    (hcs : ∀ c ∈ cs.head?, c.isDigit = false) (hcs' : ∀ c ∈ cs'.head?, c.isDigit = false)
    (h : ds ++ cs = es ++ cs') : ds = es ∧ cs = cs' := by
  have htake : ∀ {ds cs : List Char}, (∀ d ∈ ds, d.isDigit) → (∀ c ∈ cs.head?, c.isDigit = false) →
      (ds ++ cs).takeWhile Char.isDigit = ds := by
    intro ds cs hds hcs
    rw [List.takeWhile_append_of_pos hds]
    cases cs with
    | nil => simp
    | cons c cs => simp [hcs c rfl]
  have heq : ds = es := by rw [← htake hds hcs, h, htake hes hcs']
  exact ⟨heq, List.append_cancel_left (heq ▸ h)⟩

/-- A minus is told from a digit. -/
theorem minus_inj {a b : Bool} (hds : ds.head?.any Char.isDigit) (hes : es.head?.any Char.isDigit)
    (h : (if a then '-' :: ds else ds) = if b then '-' :: es else es) : a = b ∧ ds = es := by
  cases a <;> cases b
  · exact ⟨rfl, h⟩
  · rw [show ds = '-' :: es from h] at hds
    cases hds
  · rw [← show '-' :: ds = es from h] at hes
    cases hes
  · exact ⟨rfl, (List.cons.inj h).2⟩

theorem head?_any_of_digits (hne : ds ≠ []) (hds : ∀ d ∈ ds, d.isDigit) : (ds ++ cs).head?.any Char.isDigit := by
  obtain ⟨d, rest, rfl⟩ := List.exists_cons_of_ne_nil hne
  exact hds d (List.mem_cons_self ..)

end Unique

theorem Power.chars_inj {p p' : Power} (h : p.chars = p'.chars) : p = p' := by
  have hhead : ∀ p : Power, p.digits.head?.any Char.isDigit := fun p =>
    List.append_nil p.digits ▸ head?_any_of_digits p.ne_nil p.isDigit
  obtain ⟨hsign, hdigits⟩ := minus_inj (hhead p) (hhead p') h
  cases p
  cases p'
  cases hsign
  cases hdigits
  rfl

namespace Figure

/-- No digit starts a power, and no point. -/
theorem head?_power (x : Figure) : ∀ c ∈ (x.power.elim [] ('E' :: ·.chars)).head?, c = 'E' := by
  cases x.power <;> simp

theorem head?_rest (x : Figure) :
    ∀ c ∈ (x.numeral.fraction.elim [] ('.' :: ·) ++ x.power.elim [] ('E' :: ·.chars)).head?,
      c.isDigit = false := by
  intro c hc
  cases hfraction : x.numeral.fraction with
  | none =>
    rw [hfraction] at hc
    rw [x.head?_power c hc]
    rfl
  | some ds =>
    rw [hfraction] at hc
    cases hc
    rfl

theorem chars_eq (x : Figure) :
    x.chars = x.numeral.whole ++ (x.numeral.fraction.elim [] ('.' :: ·) ++ x.power.elim [] ('E' :: ·.chars)) :=
  List.append_assoc ..

theorem rest_inj {x y : Figure}
    (h : x.numeral.fraction.elim [] ('.' :: ·) ++ x.power.elim [] ('E' :: ·.chars) =
      y.numeral.fraction.elim [] ('.' :: ·) ++ y.power.elim [] ('E' :: ·.chars)) :
    x.numeral.fraction = y.numeral.fraction ∧
      x.power.elim [] ('E' :: ·.chars) = y.power.elim [] ('E' :: ·.chars) := by
  have hdigit : ∀ x : Figure, ∀ c ∈ (x.power.elim [] ('E' :: ·.chars)).head?, c.isDigit = false := by
    intro x c hc
    rw [x.head?_power c hc]
    rfl
  have hpoint : ∀ (x : Figure) {cs : List Char}, x.power.elim [] ('E' :: ·.chars) ≠ '.' :: cs := by
    intro x cs heq
    have hdot := x.head?_power '.' (by rw [heq]; rfl)
    cases hdot
  have hx := x.isAscii.fraction
  have hy := y.isAscii.fraction
  cases hfx : x.numeral.fraction <;> cases hfy : y.numeral.fraction <;> rw [hfx, hfy] at h
  · exact ⟨rfl, h⟩
  · exact absurd h (hpoint x)
  · exact absurd h.symm (hpoint y)
  · rw [hfx] at hx
    rw [hfy] at hy
    obtain ⟨rfl, hpower⟩ := append_inj_of_digits hx hy (hdigit x) (hdigit y) (List.cons.inj h).2
    exact ⟨rfl, hpower⟩

theorem power_inj {p p' : Option Power} (h : p.elim [] ('E' :: ·.chars) = p'.elim [] ('E' :: ·.chars)) : p = p' := by
  cases p <;> cases p'
  · rfl
  · cases h
  · cases h
  · exact congrArg some (Power.chars_inj (List.cons.inj h).2)

/-- Figures with one text are the same. -/
theorem text_inj {x y : Figure} (h : x.text = y.text) : x = y := by
  have hhead : ∀ x : Figure, x.chars.head?.any Char.isDigit := fun x =>
    x.chars_eq ▸ head?_any_of_digits x.numeral.whole_ne_nil x.isAscii.whole
  obtain ⟨hsign, hchars⟩ := minus_inj (hhead x) (hhead y) (String.ofList_injective h)
  rw [chars_eq, chars_eq] at hchars
  obtain ⟨hwhole, hrest⟩ := append_inj_of_digits x.isAscii.whole y.isAscii.whole x.head?_rest y.head?_rest hchars
  obtain ⟨hfraction, hpower⟩ := rest_inj hrest
  obtain ⟨xs, ⟨xw, xf, _, _⟩, xp, _⟩ := x
  obtain ⟨ys, ⟨yw, yf, _, _⟩, yp, _⟩ := y
  cases hsign
  cases hwhole
  cases hfraction
  cases power_inj hpower
  rfl

end Figure

/-! ### Powers -/

theorem head?_toDigits {n : ℕ} (hn : n ≠ 0) : (Nat.toDigits 10 n).head? ≠ some '0' := by
  induction n using Nat.strongRecOn with
  | ind n ih =>
    rcases Nat.lt_or_ge n 10 with hlt | hge
    · rw [Nat.toDigits_of_lt_base hlt, List.head?_cons, ne_eq, Option.some_inj]
      interval_cases n <;> first | exact absurd rfl hn | decide
    · rw [Nat.toDigits_of_base_le (by norm_num) hge, List.head?_append_of_ne_nil _ Nat.toDigits_ne_nil]
      exact ih (n / 10) (by omega) (by omega)

/-- An exponent other than zero is a power. -/
theorem exists_power {k : ℤ} (hk : k ≠ 0) : ∃ p : Power, p.chars = (toString k).toList ∧ p.value = k := by
  have hdigits : ∀ {n : ℕ}, ∀ d ∈ Nat.toDigits 10 n, d.isDigit :=
    fun d hd => Nat.isDigit_of_mem_toDigits (by decide) (by decide) hd
  cases k with
  | ofNat n =>
    have hn : n ≠ 0 := by simpa using hk
    refine ⟨⟨false, Nat.toDigits 10 n, Nat.toDigits_ne_nil, hdigits, head?_toDigits hn⟩, ?_, ?_⟩
    · exact Nat.toList_repr.symm
    · exact congrArg Nat.cast Nat.ofDigitChars_ten_toDigits
  | negSucc n =>
    refine ⟨⟨true, Nat.toDigits 10 (n + 1), Nat.toDigits_ne_nil, hdigits, head?_toDigits (by omega)⟩, ?_, ?_⟩
    · show '-' :: Nat.toDigits 10 (n + 1) = ("-" ++ (n + 1).repr).toList
      rw [String.toList_append, Nat.toList_repr]
      rfl
    · exact congrArg (fun m : ℕ => -(m : ℤ)) Nat.ofDigitChars_ten_toDigits

/-! ### Exponents in a text -/

/-- The text of an exponent: a sign, and digits that are its size. -/
theorem paddedExponent_eq (k : ℤ) :
    ∃ ds, paddedExponent k = (if k < 0 then '-' else '+') :: ds ∧ ds ≠ [] ∧ (∀ d ∈ ds, d.isDigit) ∧
      Nat.ofDigitChars 10 ds 0 = k.natAbs := by
  have hdigits : ∀ d ∈ Nat.toDigits 10 k.natAbs, d.isDigit :=
    fun d hd => Nat.isDigit_of_mem_toDigits (by decide) (by decide) hd
  by_cases hshort : (Nat.toDigits 10 k.natAbs).length < 2
  · refine ⟨'0' :: Nat.toDigits 10 k.natAbs, by simp [paddedExponent, hshort], by simp,
      List.forall_mem_cons.mpr ⟨rfl, hdigits⟩, ?_⟩
    rw [Nat.ofDigitChars_cons]
    exact Nat.ofDigitChars_ten_toDigits
  · exact ⟨_, by simp [paddedExponent, hshort], Nat.toDigits_ne_nil, hdigits, Nat.ofDigitChars_ten_toDigits⟩

/-- An exponent is read back from its text. -/
theorem integer?_paddedExponent (k : ℤ) : integer? (paddedExponent k) = some k := by
  obtain ⟨ds, hk, hne, hds, hsize⟩ := paddedExponent_eq k
  have hform : (!ds.isEmpty && ds.all isDigit) = true := by
    rw [Bool.and_eq_true, List.all_eq_true]
    exact ⟨by simpa using hne, hds⟩
  by_cases hneg : k < 0
  · rw [hk, if_pos hneg]
    simp only [integer?, splitSign, hform, if_true, radix_value hds, hsize, Option.some_inj]
    omega
  · rw [hk, if_neg hneg]
    simp only [integer?, splitSign, hform, if_true, radix_value hds, hsize, Bool.false_eq_true, if_false,
      Option.some_inj]
    omega

/-- The text is cut at its `E`. -/
theorem withPlainExponent_append {cs : List Char} (h : ∀ c ∈ cs, c ≠ 'E') (k : ℤ) :
    withPlainExponent (cs ++ 'E' :: paddedExponent k) = withFraction cs ++ 'E' :: (toString k).toList := by
  have hbefore : ∀ c ∈ cs, (c != 'E') = true := fun c hc => bne_iff_ne.mpr (h c hc)
  simp [withPlainExponent, List.takeWhile_append_of_pos hbefore, List.dropWhile_append_of_pos hbefore,
    integer?_paddedExponent]

theorem signed_append (negative : Bool) (cs ds : List Char) :
    signed negative (cs ++ ds) = signed negative cs ++ ds := by
  cases negative <;> rfl

/-- A minus is no point. -/
theorem withFraction_signed (negative : Bool) (cs : List Char) :
    withFraction (signed negative cs) = signed negative (withFraction cs) := by
  cases negative
  · rfl
  · by_cases hpoint : '.' ∈ cs <;> simp [withFraction, signed, hpoint]

/-! ### Decimals as figures -/

namespace Decimal
variable {d : Decimal}

/-- The power of ten of a decimal's first digit. -/
def firstPlace (d : Decimal) : ℤ := d.digitText.length - 1 + d.exponent

theorem length_digitText_pos (d : Decimal) : 0 < d.digitText.length := Nat.length_toDigits_pos

theorem pow_firstPlace_le (hd : d.digits ≠ 0) : (10 : ℚ) ^ d.firstPlace ≤ d.toRat := by
  have hpos := d.length_digitText_pos
  obtain ⟨k, hk⟩ : ∃ k : ℕ, d.digitText.length - 1 = k := ⟨_, rfl⟩
  have hle : (10 : ℚ) ^ k ≤ d.digits := by exact_mod_cast hk ▸ pow_length_le hd
  rw [firstPlace, show (d.digitText.length : ℤ) - 1 = k by omega, zpow_add₀ (by norm_num), zpow_natCast, toRat]
  exact mul_le_mul_of_nonneg_right hle (by positivity)

theorem toRat_lt_pow (d : Decimal) : d.toRat < 10 ^ (d.firstPlace + 1) := by
  have hlt : (d.digits : ℚ) < 10 ^ d.digitText.length := by exact_mod_cast lt_pow_length d.digits
  rw [firstPlace, show (d.digitText.length : ℤ) - 1 + d.exponent + 1 = d.digitText.length + d.exponent by ring,
    zpow_add₀ (by norm_num), zpow_natCast, toRat]
  exact mul_lt_mul_of_pos_right hlt (by positivity)

/-- Digits with `.0` after them. -/
theorem exists_numeral_zero {ds : List Char} (hne : ds ≠ []) (hds : ∀ d ∈ ds, d.isDigit) :
    ∃ n : Numeral, n.whole = ds ∧ n.fraction = some ['0'] ∧ n.IsAscii ∧ n.value = Nat.ofDigitChars 10 ds 0 := by
  have hdigits : ∀ c ∈ ds ++ ['0'], c.isDigit := by
    intro c hc
    rcases List.mem_append.mp hc with hc | hc
    · exact hds c hc
    · rw [List.mem_singleton.mp hc]
      rfl
  refine ⟨⟨ds, some ['0'], hne, fun c hc => isDecimalDigit_of_isDigit (hdigits c hc)⟩, rfl, rfl, hdigits, ?_⟩
  show ((Nat.ofDigitChars 10 (ds ++ ['0']) 0 : ℕ) : ℚ) / 10 ^ 1 = _
  rw [Nat.ofDigitChars_append, Nat.ofDigitChars_cons, Nat.ofDigitChars_nil]
  push_cast
  norm_num

/-- The first digit, a point, and the other digits, or a zero if there are none. -/
theorem exists_leading (d : Decimal) :
    ∃ n : Numeral, n.chars =
        d.digitText.take 1 ++ '.' :: (if d.digitText.length ≤ 1 then ['0'] else d.digitText.drop 1) ∧
      n.IsAscii ∧ n.value = d.digits / 10 ^ (d.digitText.length - 1) ∧
      (∃ ds, n.fraction = some ds ∧ ds ≠ []) ∧ n.whole.length = 1 := by
  have hpos := d.length_digitText_pos
  split
  case isTrue hone =>
    obtain ⟨n, hwhole, hfraction, hascii, hvalue⟩ :=
      exists_numeral_zero (List.ne_nil_of_length_pos hpos) fun c hc => isDigit_of_mem_digitText hc
    refine ⟨n, ?_, hascii, ?_, ⟨_, hfraction, by simp⟩, by rw [hwhole]; omega⟩
    · rw [Numeral.chars, hwhole, hfraction, List.take_of_length_le hone]
      rfl
    · rw [hvalue, ofDigitChars_digitText, show d.digitText.length - 1 = 0 by omega, pow_zero, div_one]
  case isFalse hmore =>
    have hwhole : (d.digitText.take 1).length = 1 := by
      rw [List.length_take]
      omega
    have hrest : d.digitText.drop 1 ≠ [] := List.ne_nil_of_length_pos (by rw [List.length_drop]; omega)
    have hdigits : ∀ c ∈ d.digitText.take 1 ++ d.digitText.drop 1, c.isDigit := by
      rw [List.take_append_drop]
      exact fun c hc => isDigit_of_mem_digitText hc
    refine ⟨⟨_, some _, List.ne_nil_of_length_pos (by omega), fun c hc => isDecimalDigit_of_isDigit (hdigits c hc)⟩,
      rfl, hdigits, ?_, ⟨_, rfl, hrest⟩, hwhole⟩
    show ((Nat.ofDigitChars 10 (d.digitText.take 1 ++ d.digitText.drop 1) 0 : ℕ) : ℚ) /
      10 ^ (d.digitText.drop 1).length = _
    rw [List.take_append_drop, ofDigitChars_digitText, List.length_drop]

/-- What stands before the exponent: the digits, with a point behind the first one if there are others. -/
def mantissa (d : Decimal) : List Char :=
  d.digitText.take 1 ++ if d.digitText.length ≤ 1 then [] else '.' :: d.digitText.drop 1

theorem scientific_eq (d : Decimal) : d.scientific = d.mantissa ++ 'E' :: paddedExponent d.firstPlace := rfl

theorem ne_of_mem_mantissa {c : Char} (h : c ∈ d.mantissa) : c ≠ 'E' := by
  have hdigit : ∀ c ∈ d.digitText, c ≠ 'E' := by
    rintro _ hc rfl
    exact absurd (isDigit_of_mem_digitText hc) (by decide)
  rw [mantissa, List.mem_append] at h
  rcases h with h | h
  · exact hdigit c (List.mem_of_mem_take h)
  split at h
  · cases h
  rcases List.mem_cons.mp h with rfl | h
  · decide
  · exact hdigit c (List.mem_of_mem_drop h)

theorem withFraction_mantissa (d : Decimal) :
    withFraction d.mantissa =
      d.digitText.take 1 ++ '.' :: (if d.digitText.length ≤ 1 then ['0'] else d.digitText.drop 1) := by
  by_cases hone : d.digitText.length ≤ 1
  · have hpoint : '.' ∉ d.digitText := fun hmem => absurd (isDigit_of_mem_digitText hmem) (by decide)
    simp [mantissa, hone, withFraction, hpoint, List.take_of_length_le hone]
  · simp [mantissa, hone, withFraction]

/-- What becomes of the text of a decimal with an exponent. -/
theorem withPlainExponent_scientific (d : Decimal) (negative : Bool) :
    withPlainExponent (signed negative d.scientific) =
      signed negative (withFraction d.mantissa ++ 'E' :: (toString d.firstPlace).toList) := by
  have hmark : ∀ c ∈ signed negative d.mantissa, c ≠ 'E' := by
    cases negative with
    | false => exact fun c hc => ne_of_mem_mantissa hc
    | true => exact List.forall_mem_cons.mpr ⟨by decide, fun c hc => ne_of_mem_mantissa hc⟩
  calc withPlainExponent (signed negative d.scientific)
      = withPlainExponent (signed negative d.mantissa ++ 'E' :: paddedExponent d.firstPlace) := by
        rw [scientific_eq, signed_append]
    _ = withFraction (signed negative d.mantissa) ++ 'E' :: (toString d.firstPlace).toList :=
        withPlainExponent_append hmark _
    _ = _ := by rw [withFraction_signed, signed_append]

/-- A decimal with an exponent. -/
theorem exists_scientific (hd : d.firstPlace ≠ 0) :
    ∃ (n : Numeral) (p : Power), (∀ negative, withPlainExponent (signed negative d.scientific) =
        signed negative (n.chars ++ 'E' :: p.chars)) ∧ n.IsAscii ∧
      n.value * 10 ^ p.value = d.toRat ∧ (∃ ds, n.fraction = some ds ∧ ds ≠ []) ∧ n.whole.length = 1 := by
  obtain ⟨n, hchars, hascii, hvalue, hform⟩ := d.exists_leading
  obtain ⟨p, hpchars, hpvalue⟩ := exists_power hd
  have hpos := d.length_digitText_pos
  refine ⟨n, p, fun negative => ?_, hascii, ?_, hform⟩
  · rw [withPlainExponent_scientific, withFraction_mantissa, hchars, hpchars]
  · rw [hvalue, hpvalue, firstPlace, zpow_add₀ (by norm_num), toRat,
      show (d.digitText.length : ℤ) - 1 = (d.digitText.length - 1 : ℕ) by omega, zpow_natCast]
    field_simp

theorem isDigit_of_getLast? (cs : List Char) {ds : List Char} (hne : ds ≠ []) (hds : ∀ d ∈ ds, d.isDigit) :
    ∀ c ∈ (cs ++ ds).getLast?, c.isDigit := by
  intro c hc
  rw [List.getLast?_append_of_ne_nil _ hne] at hc
  exact hds c (List.mem_of_getLast? hc)

/-- No point stands at the end of a decimal. -/
theorem isDigit_of_getLast?_positional (d : Decimal) : ∀ c ∈ d.positional.getLast?, c.isDigit := by
  have hne : d.digitText ≠ [] := Nat.toDigits_ne_nil
  unfold positional
  dsimp only
  split
  case isTrue =>
    refine isDigit_of_getLast? [] (by simp [hne]) fun c hc => ?_
    exact (List.mem_append.mp hc).elim isDigit_of_mem_digitText isDigit_of_mem_replicate
  case isFalse hneg =>
    split
    case isTrue =>
      rw [List.append_cons]
      refine isDigit_of_getLast? _ ?_ fun c hc => isDigit_of_mem_digitText (List.mem_of_mem_drop hc)
      exact List.ne_nil_of_length_pos (by rw [List.length_drop]; omega)
    case isFalse => exact isDigit_of_getLast? _ hne fun c hc => isDigit_of_mem_digitText hc

/-- A decimal without an exponent, and with a fraction. -/
theorem exists_withFraction (d : Decimal) :
    ∃ n : Numeral, n.chars = withFraction d.positional ∧ n.IsAscii ∧ n.value = d.toRat ∧
      ∃ ds, n.fraction = some ds ∧ ds ≠ [] := by
  obtain ⟨n, hchars, hascii, hvalue⟩ := d.exists_numeral
  have hlast := d.isDigit_of_getLast?_positional
  rw [← hchars] at hlast ⊢
  rw [← hvalue, withFraction]
  have hpoint : '.' ∈ n.chars ↔ n.fraction.isSome := by
    rw [Numeral.mem_chars, or_iff_right fun hmem => absurd (hascii '.' hmem) (by decide)]
    exact and_iff_right rfl
  cases hfraction : n.fraction with
  | none =>
    rw [if_neg (by simp [hpoint, hfraction])]
    obtain ⟨n', hwhole, hfraction', hascii', hvalue'⟩ := exists_numeral_zero n.whole_ne_nil hascii.whole
    refine ⟨n', ?_, hascii', ?_, _, hfraction', by simp⟩
    · simp [Numeral.chars, hwhole, hfraction, hfraction']
    · rw [hvalue']
      simp [Numeral.value, Numeral.digits, hfraction]
  | some ds =>
    rw [if_pos (by simp [hpoint, hfraction])]
    refine ⟨n, rfl, hascii, rfl, ds, hfraction, ?_⟩
    rintro rfl
    have hdot := hlast '.' (by simp [Numeral.chars, hfraction])
    cases hdot

end Decimal

/-! ### What is shown of a number -/

section Shown
variable {f g : Float}

theorem literal_of_isFinite (h : f.isFinite) :
    literal f = String.ofList (signed (Binary.ofFloat f).negative (Binary.ofFloat f).decimal.positional) := by
  obtain ⟨hnan, hinf⟩ := not_isNaN_of_isFinite h
  simp only [literal, hnan, hinf, Bool.false_eq_true, if_false]

theorem console_of_plain (h : f.isFinite) (hplain : ¬ IsFar f) :
    console f =
      String.ofList (signed (Binary.ofFloat f).negative (withFraction (Binary.ofFloat f).decimal.positional)) := by
  obtain ⟨hnan, hinf⟩ := not_isNaN_of_isFinite h
  simp only [console, hnan, hinf, Bool.false_eq_true, if_false, withFraction_signed]
  exact if_pos ((plain_iff h).mpr hplain)

theorem console_of_far (h : f.isFinite) (hfar : IsFar f) :
    console f = String.ofList
      (withPlainExponent (signed (Binary.ofFloat f).negative (Binary.ofFloat f).decimal.scientific)) := by
  obtain ⟨hnan, hinf⟩ := not_isNaN_of_isFinite h
  simp only [console, hnan, hinf, Bool.false_eq_true, if_false]
  exact if_neg fun hplain => (plain_iff h).mp hplain hfar

/-- The decimal of a number is zero with it, or lies near it. -/
theorem decimal_cases (h : f.isFinite) :
    (Binary.ofFloat f).mantissa = 0 ∧ (Binary.ofFloat f).decimal.toRat = 0 ∨
      Stored (Binary.ofFloat f).mantissa (Binary.ofFloat f).exponent ∧
        Near (Binary.ofFloat f).decimal.toRat (Binary.ofFloat f).mantissa (Binary.ofFloat f).exponent := by
  rcases toModel_of_isFinite h rfl with ⟨hzero, -⟩ | ⟨hm, -⟩
  · left
    simp [Binary.decimal, hzero, Decimal.toRat]
  · right
    rw [Binary.decimal, if_neg hm.pos.ne']
    exact ⟨hm, Binary.near_shortest hm⟩

/-- The decimal of a number lies within a factor of two of it, so far from one it does not start at the units. -/
theorem firstPlace_ne_zero (h : f.isFinite) (hfar : IsFar f) :
    (Binary.ofFloat f).decimal.firstPlace ≠ 0 := by
  intro hplace
  obtain ⟨hne, hfar⟩ := hfar
  rw [← abs_ne_zero, abs_valueOf, Binary.size] at hne
  rw [abs_valueOf, Binary.size] at hfar
  rcases decimal_cases h with ⟨hzero, -⟩ | ⟨hm, hnear⟩
  · rw [hzero, Nat.cast_zero, zero_mul] at hne
    exact hne rfl
  have hdigits : (Binary.ofFloat f).decimal.digits ≠ 0 := by
    intro hzero
    have hpos := hnear.pos hm
    rw [Decimal.toRat, hzero, Nat.cast_zero, zero_mul] at hpos
    exact lt_irrefl _ hpos
  have hge := Decimal.pow_firstPlace_le hdigits
  have hlt := (Binary.ofFloat f).decimal.toRat_lt_pow
  rw [hplace] at hge hlt
  norm_num at hge hlt
  have hone : (1 : ℚ) ≤ (Binary.ofFloat f).mantissa := by exact_mod_cast hm.pos
  have hunit := mul_le_mul_of_nonneg_right hone (zpow_nonneg zero_le_two (Binary.ofFloat f).exponent)
  have hdown := mul_le_mul_of_nonneg_right (downTo_le (Binary.ofFloat f).mantissa (Binary.ofFloat f).exponent)
    (zpow_nonneg (zero_le_two (α := ℚ)) (Binary.ofFloat f).exponent)
  have hlow := hnear.low
  have hhigh := hnear.high
  rw [sub_mul] at hlow
  rw [add_mul] at hhigh
  rcases hfar with hsmall | hlarge <;> linarith

theorem decimal_roundsTo (h : f.isFinite) :
    RoundsTo (withSign (Binary.ofFloat f).negative (Binary.ofFloat f).decimal.toRat) f := by
  rcases decimal_cases h with ⟨hzero, hdecimal⟩ | ⟨hm, hnear⟩
  · have hvalue : withSign (Binary.ofFloat f).negative 0 = 0 := abs_eq_zero.mp (by rw [abs_withSign, abs_zero])
    rw [hdecimal, hvalue]
    exact roundsTo_zero hzero
  · exact roundsTo_of_near hm hnear

theorem Stored.eq_of_near {m m' : ℕ} {e e' : ℤ} {d : Decimal} (hm : Stored m e) (hm' : Stored m' e')
    (h : Near d.toRat m e) (h' : Near d.toRat m' e') : m = m' ∧ e = e' := by
  have hmodel := (d.storedAs_nearest.eq_finite hm h).symm.trans (d.storedAs_nearest.eq_finite hm' h')
  have hunpack := congrArg Float.Model.unpack hmodel
  rw [hm.unpack_pack, hm'.unpack_pack] at hunpack
  cases hunpack
  exact ⟨rfl, rfl⟩

theorem toRat_decimal_eq_zero (h : f.isFinite) :
    (Binary.ofFloat f).decimal.toRat = 0 ↔ (Binary.ofFloat f).mantissa = 0 := by
  rcases decimal_cases h with ⟨hzero, hdecimal⟩ | ⟨hm, hnear⟩
  · exact iff_of_true hdecimal hzero
  · exact iff_of_false (hnear.pos hm).ne' hm.pos.ne'

/-- A finite number is known by its sign and its decimal. -/
theorem eq_of_decimal (hf : f.isFinite) (hg : g.isFinite)
    (hsign : (Binary.ofFloat f).negative = (Binary.ofFloat g).negative)
    (hdecimal : (Binary.ofFloat f).decimal.toRat = (Binary.ofFloat g).decimal.toRat) : f = g := by
  have hzero : (Binary.ofFloat f).mantissa = 0 ↔ (Binary.ofFloat g).mantissa = 0 := by
    rw [← toRat_decimal_eq_zero hf, hdecimal, toRat_decimal_eq_zero hg]
  rcases toModel_of_isFinite hf rfl with ⟨hmf, hmodel⟩ | ⟨hmf, hmodel⟩ <;>
    rcases toModel_of_isFinite hg rfl with ⟨hmg, hmodel'⟩ | ⟨hmg, hmodel'⟩
  · exact toFloat_ext (by rw [hmodel, hmodel', hsign])
  · exact absurd (hzero.mp hmf) hmg.pos.ne'
  · exact absurd (hzero.mpr hmg) hmf.pos.ne'
  · have hnear := Binary.near_shortest hmf
    have hnear' := Binary.near_shortest hmg
    rw [Binary.decimal, Binary.decimal, if_neg hmf.pos.ne', if_neg hmg.pos.ne'] at hdecimal
    obtain ⟨hmantissa, hexponent⟩ := hmf.eq_of_near hmg hnear (hdecimal ▸ hnear')
    refine toFloat_ext (hmodel.trans (Eq.trans ?_ hmodel'.symm))
    congr 2
    rw [hsign]

theorem exists_literal (h : f.isFinite) :
    ∃ x : Figure, x.text = literal f ∧ x.negative = (Binary.ofFloat f).negative ∧ x.power = none ∧
      x.value = withSign (Binary.ofFloat f).negative (Binary.ofFloat f).decimal.toRat := by
  obtain ⟨n, hchars, hascii, hvalue⟩ := (Binary.ofFloat f).decimal.exists_numeral
  refine ⟨⟨(Binary.ofFloat f).negative, n, none, hascii⟩, ?_, rfl, rfl, ?_⟩
  · rw [literal_of_isFinite h, ← hchars]
    simp [Figure.text, Figure.chars, signed]
  · rw [← hvalue]
    simp [Figure.value]

theorem exists_console (h : f.isFinite) :
    ∃ x : Figure, x.text = console f ∧ x.negative = (Binary.ofFloat f).negative ∧ x.IsPointed ∧
      (x.power.isSome ↔ IsFar f) ∧
      x.value = withSign (Binary.ofFloat f).negative (Binary.ofFloat f).decimal.toRat := by
  by_cases hfar : IsFar f
  · obtain ⟨n, p, hchars, hascii, hvalue, hfraction, hwhole⟩ :=
      Decimal.exists_scientific (firstPlace_ne_zero h hfar)
    refine ⟨⟨(Binary.ofFloat f).negative, n, some p, hascii⟩, ?_, rfl, ⟨hfraction, .inr hwhole⟩,
      iff_of_true rfl hfar, congrArg (withSign _) hvalue⟩
    rw [console_of_far h hfar, hchars]
    rfl
  · obtain ⟨n, hchars, hascii, hvalue, hfraction⟩ := (Binary.ofFloat f).decimal.exists_withFraction
    refine ⟨⟨(Binary.ofFloat f).negative, n, none, hascii⟩, ?_, rfl, ⟨hfraction, .inl rfl⟩,
      iff_of_false Bool.false_ne_true hfar, ?_⟩
    · rw [console_of_plain h hfar, ← hchars]
      simp [Figure.text, Figure.chars, signed]
    · rw [← hvalue]
      simp [Figure.value]

/-- Figures of one text come from one number. -/
theorem eq_of_figures {x y : Figure} (hf : f.isFinite) (hg : g.isFinite) (htext : x.text = y.text)
    (hx : x.negative = (Binary.ofFloat f).negative) (hy : y.negative = (Binary.ofFloat g).negative)
    (hxvalue : x.value = withSign (Binary.ofFloat f).negative (Binary.ofFloat f).decimal.toRat)
    (hyvalue : y.value = withSign (Binary.ofFloat g).negative (Binary.ofFloat g).decimal.toRat) : f = g := by
  cases Figure.text_inj htext
  have hsign := hx.symm.trans hy
  refine eq_of_decimal hf hg hsign ?_
  rw [← sub_eq_zero, ← abs_eq_zero, ← abs_withSign (Binary.ofFloat g).negative, ← withSign_sub, ← hyvalue,
    hxvalue, hsign, sub_self, abs_zero]

end Shown

/-- **Numbers are shown by their value.** What the console shows of a finite number and its literal are each
the text of one figure. The console's has a fraction, and it has an exponent exactly if the number is not
zero and its size is below a thousandth or ten million at least; the literal has none. Both stand for the
same rational, which has the sign of the number and is rounded to it. So any other finite number is shown
otherwise. -/
theorem console_keeps_value {f : Float} (hf : f.isFinite) :
    ∃ shown written : Figure,
      (∀ x : Figure, x.text = console f ↔ x = shown) ∧ (∀ x : Figure, x.text = literal f ↔ x = written) ∧
      shown.IsPointed ∧
      (shown.power.isSome ↔ valueOf f ≠ 0 ∧ (|valueOf f| < 1 / 1000 ∨ 10 ^ 7 ≤ |valueOf f|)) ∧
      written.power = none ∧ shown.value = written.value ∧ RoundsTo written.value f ∧
      shown.negative = (Binary.ofFloat f).negative ∧ written.negative = (Binary.ofFloat f).negative ∧
      ∀ g : Float, g.isFinite → g ≠ f → console g ≠ console f ∧ literal g ≠ literal f := by
  obtain ⟨shown, hshown, hsign, hpointed, hpower, hvalue⟩ := exists_console hf
  obtain ⟨written, hwritten, hsign', hpower', hvalue'⟩ := exists_literal hf
  refine ⟨shown, written, fun x => ⟨fun hx => Figure.text_inj (hx.trans hshown.symm), fun hx => hx ▸ hshown⟩,
    fun x => ⟨fun hx => Figure.text_inj (hx.trans hwritten.symm), fun hx => hx ▸ hwritten⟩, hpointed, hpower,
    hpower', hvalue.trans hvalue'.symm, hvalue' ▸ decimal_roundsTo hf, hsign, hsign',
    fun g hg hne => ⟨fun heq => ?_, fun heq => ?_⟩⟩
  · obtain ⟨x, hx, hxsign, -, -, hxvalue⟩ := exists_console hg
    exact hne (eq_of_figures hg hf (hx.trans (heq.trans hshown.symm)) hxsign hsign hxvalue hvalue)
  · obtain ⟨x, hx, hxsign, -, hxvalue⟩ := exists_literal hg
    exact hne (eq_of_figures hg hf (hx.trans (heq.trans hwritten.symm)) hxsign hsign' hxvalue hvalue')

theorem console_keeps_value_far :
    (12500000 : Float).isFinite = true ∧
      (∃ shown written : Figure, shown.text = console 12500000 ∧ written.text = literal 12500000 ∧
        shown.power.isSome ∧ shown.value = written.value ∧ RoundsTo written.value 12500000) ∧
      console (-12500000) ≠ console 12500000 := by
  have hfinite : (12500000 : Float).isFinite = true := rfl
  obtain ⟨shown, written, hshown, hwritten, -, hpower, -, hvalue, hrounds, -, -, hother⟩ :=
    console_keeps_value hfinite
  have hbinary : Binary.ofFloat 12500000 = ⟨false, 12500000 * 2 ^ 29, -29⟩ := rfl
  have hsize : valueOf 12500000 = 12500000 := by
    rw [valueOf, hbinary]
    norm_num [withSign, Binary.size]
  refine ⟨hfinite, ⟨shown, written, (hshown shown).mpr rfl, (hwritten written).mpr rfl, hpower.mpr ?_, hvalue,
    hrounds⟩, (hother (-12500000) rfl (by decide)).1⟩
  rw [hsize]
  norm_num

end Offside.Number
