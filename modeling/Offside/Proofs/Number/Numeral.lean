import Mathlib.Data.List.TakeWhile
import Offside.Number.Read
import Offside.Proofs.Number.Overflow
import Offside.Text.Classes

/-! Numbers as they are written in a source text.

A numeral is a run of decimal digits, perhaps with a point and a second run after it. Written with the
digits `0` to `9` it is read as the number nearest to its value, and there is one exactly if the value
is below `limit`. With digits of any other script it is not read at all. -/
namespace Offside

/-- Digits, and perhaps a point and digits after it. There may be none after the point. -/
structure Numeral where
  whole : List Char
  fraction : Option (List Char)
  whole_ne_nil : whole ≠ []
  isDecimalDigit : ∀ d ∈ whole ++ fraction.getD [], Text.isDecimalDigit d

namespace Numeral

/-- All digits, without the point. -/
def digits (n : Numeral) : List Char := n.whole ++ n.fraction.getD []

def chars (n : Numeral) : List Char := n.whole ++ n.fraction.elim [] ('.' :: ·)

def text (n : Numeral) : String := String.ofList n.chars

/-- Only the digits `0` to `9` occur. -/
def IsAscii (n : Numeral) : Prop := ∀ d ∈ n.digits, d.isDigit

instance (n : Numeral) : Decidable n.IsAscii := inferInstanceAs (Decidable (∀ d ∈ n.digits, d.isDigit))

/-- The value of a numeral in the digits `0` to `9`. -/
def value (n : Numeral) : ℚ := Nat.ofDigitChars 10 n.digits 0 / 10 ^ (n.fraction.getD []).length

end Numeral

namespace Number

/-! ### Reading digits -/

section Digits
variable {c d : Char} {cs ds es : List Char}

theorem ne_of_isDecimalDigit (hc : Text.isDecimalDigit c) (hd : Text.isDecimalDigit d = false) : c ≠ d := by
  rintro rfl
  rw [hd] at hc
  cases hc

/-- There are no other decimal digits among the first characters. -/
theorem isDecimalDigit_cases (hd : Text.isDecimalDigit d) : d.isDigit ∨ 128 ≤ d.toNat := by
  have hfirst : ∀ k < 128, Text.decimalDigitRanges.holds k = true → 48 ≤ k ∧ k ≤ 57 := by decide
  rcases Nat.lt_or_ge d.toNat 128 with hlt | hge
  · obtain ⟨hle, hge⟩ := hfirst d.toNat hlt hd
    refine .inl (Bool.and_eq_true_iff.mpr ⟨decide_eq_true ?_, decide_eq_true ?_⟩)
    · exact UInt32.le_iff_toNat_le.mpr hle
    · exact UInt32.le_iff_toNat_le.mpr hge
  · exact .inr hge

theorem splitSign_of_isDecimalDigit (hd : Text.isDecimalDigit d) : splitSign (d :: cs) = (false, d :: cs) := by
  unfold splitSign
  split
  case h_1 heq => exact absurd (List.cons.inj heq).1 (ne_of_isDecimalDigit hd (by decide))
  case h_2 heq => exact absurd (List.cons.inj heq).1 (ne_of_isDecimalDigit hd (by decide))
  case h_3 => rfl

theorem toLower_of_isDecimalDigit (hd : Text.isDecimalDigit d) : d.toLower = d := by
  unfold Char.toLower
  rw [dif_neg]
  intro h
  have hle : 65 ≤ d.toNat := UInt32.le_iff_toNat_le.mp h.1
  have hge : d.toNat ≤ 90 := UInt32.le_iff_toNat_le.mp h.2
  rcases isDecimalDigit_cases hd with hdigit | hlarge
  · simp only [Char.isDigit, Bool.and_eq_true, decide_eq_true_eq] at hdigit
    have hsmall : d.toNat ≤ 57 := UInt32.le_iff_toNat_le.mp hdigit.2
    omega
  · omega

theorem splitRadix_of_digits (hcs : ∀ c ∈ cs, Text.isDecimalDigit c ∨ c = '.') : splitRadix cs = (.ten, cs) := by
  unfold splitRadix
  split
  case h_1 x c rest =>
    have hx : x.toLower ≠ 'x' := by
      rcases hcs x (by simp) with hx | rfl
      · rw [toLower_of_isDecimalDigit hx]
        exact ne_of_isDecimalDigit hx (by decide)
      · decide
    rw [if_neg hx]
  case h_2 => rfl

theorem gapsInside_of_digits (r : Radix) (hd : d ≠ '_') (hcs : ∀ c ∈ cs, c ≠ '_') : gapsInside r d cs = true := by
  induction cs generalizing d with
  | nil => simpa [gapsInside] using hd
  | cons c cs ih =>
    obtain ⟨hc, hcs⟩ := List.forall_mem_cons.mp hcs
    simp [gapsInside, hc, hd, ih hc hcs]

theorem isDigitOrGap_of_isDigit (hd : d.isDigit) : Radix.ten.isDigitOrGap d = true :=
  Bool.or_eq_true_iff.mpr (.inl hd)

theorem digits_split (hds : ∀ d ∈ ds, d.isDigit) (cs : List Char)
    (hcs : ∀ c ∈ cs.head?, Radix.ten.isDigitOrGap c = false) :
    (ds ++ cs).takeWhile Radix.ten.isDigitOrGap = ds ∧ (ds ++ cs).dropWhile Radix.ten.isDigitOrGap = cs := by
  have hall : ∀ d ∈ ds, Radix.ten.isDigitOrGap d = true := fun d hd => isDigitOrGap_of_isDigit (hds d hd)
  rw [List.takeWhile_append_of_pos hall, List.dropWhile_append_of_pos hall]
  cases cs with
  | nil => simp
  | cons c cs => simp [hcs c rfl]

theorem radix_value (hds : ∀ d ∈ ds, d.isDigit) : Radix.ten.value ds = Nat.ofDigitChars 10 ds 0 := by
  have hfilter : ds.filter Radix.ten.isDigit = ds := List.filter_eq_self.mpr hds
  rw [Radix.value, hfilter, Nat.ofDigitChars_eq_foldl]
  refine List.foldl_ext _ _ _ fun n d hd => ?_
  show 10 * n + Radix.digitValue d = _
  rw [Radix.digitValue, if_pos (show isDigit d = true from hds d hd)]

theorem any_isDigit (hds : ∀ d ∈ ds, d.isDigit) (hne : ds ≠ []) : (ds ++ es).any Radix.ten.isDigit = true := by
  obtain ⟨d, rest, rfl⟩ := List.exists_cons_of_ne_nil hne
  exact List.any_eq_true.mpr ⟨d, List.mem_cons_self .., hds d (List.mem_cons_self ..)⟩

theorem ofChars?_integer (hds : ∀ d ∈ ds, d.isDigit) (hne : ds ≠ []) :
    Spelling.ofChars? .ten ds = some ⟨.ten, ds, [], 0⟩ := by
  obtain ⟨htake, hdrop⟩ := digits_split hds [] nofun
  rw [List.append_nil] at htake hdrop
  simp only [Spelling.ofChars?, htake, hdrop, any_isDigit hds hne, if_true]
  rfl

theorem ofChars?_decimal (hds : ∀ d ∈ ds, d.isDigit) (hne : ds ≠ []) (hes : ∀ e ∈ es, e.isDigit) :
    Spelling.ofChars? .ten (ds ++ '.' :: es) = some ⟨.ten, ds, es, 0⟩ := by
  obtain ⟨htake, hdrop⟩ := digits_split hds ('.' :: es) (by simp; decide)
  obtain ⟨htake', hdrop'⟩ := digits_split hes [] nofun
  rw [List.append_nil] at htake' hdrop'
  simp only [Spelling.ofChars?, htake, hdrop, htake', hdrop', any_isDigit hds hne, if_true]
  rfl

/-- No digit starts an exponent. -/
theorem eq_nil_of_exponent? {k : ℤ} (hcs : ∀ c ∈ cs, Text.isDecimalDigit c ∨ c = '.')
    (h : exponent? .ten cs = some k) : cs = [] := by
  cases cs with
  | nil => rfl
  | cons mark rest =>
    have hmark : mark.toLower ≠ 'e' := by
      rcases hcs mark List.mem_cons_self with hdigit | rfl
      · rw [toLower_of_isDecimalDigit hdigit]
        exact ne_of_isDecimalDigit hdigit (by decide)
      · decide
    simp [exponent?, Radix.mark, hmark] at h

theorem isDigit_of_isDigitOrGap (h : Radix.ten.isDigitOrGap d = true) (hd : Text.isDecimalDigit d) : d.isDigit :=
  (Bool.or_eq_true_iff.mp h).resolve_right fun hgap =>
    ne_of_isDecimalDigit hd (by decide) (beq_iff_eq.mp hgap)

theorem isDigit_of_exponent? {k : ℤ} (hcs : ∀ c ∈ cs, Text.isDecimalDigit c ∨ c = '.')
    (h : exponent? .ten (cs.dropWhile Radix.ten.isDigitOrGap) = some k) (hmem : d ∈ cs)
    (hd : Text.isDecimalDigit d) : d.isDigit := by
  have hnil := eq_nil_of_exponent? (fun c hc => hcs c ((List.dropWhile_sublist _).subset hc)) h
  exact isDigit_of_isDigitOrGap (List.dropWhile_eq_nil_iff.mp hnil d hmem) hd

/-- Only the digits `0` to `9` have a part in a number. -/
theorem isDigit_of_ofChars? {s : Spelling} (hcs : ∀ c ∈ cs, Text.isDecimalDigit c ∨ c = '.')
    (h : Spelling.ofChars? .ten cs = some s) (hmem : d ∈ cs) (hd : Text.isDecimalDigit d) : d.isDigit := by
  unfold Spelling.ofChars? at h
  dsimp only at h
  generalize hrest : cs.dropWhile Radix.ten.isDigitOrGap = rest at h
  split at h
  case h_1 rest =>
    obtain ⟨k, hk, -⟩ : ∃ k, exponent? .ten (rest.dropWhile Radix.ten.isDigitOrGap) = some k ∧ _ := by
      split at h
      · exact Option.map_eq_some_iff.mp h
      · cases h
    -- The digit stands before the point, or after it.
    rw [← cs.takeWhile_append_dropWhile (p := Radix.ten.isDigitOrGap), hrest] at hmem hcs
    rcases List.mem_append.mp hmem with hmem | hmem
    · exact isDigit_of_isDigitOrGap (List.mem_takeWhile_imp hmem) hd
    rcases List.mem_cons.mp hmem with rfl | hmem
    · exact absurd rfl (ne_of_isDecimalDigit hd (by decide))
    · exact isDigit_of_exponent? (fun c hc => hcs c (by simp [hc])) hk hmem hd
  case h_2 =>
    split at h
    · obtain ⟨k, hk, -⟩ := Option.map_eq_some_iff.mp h
      exact isDigit_of_exponent? hcs (hrest ▸ hk) hmem hd
    · cases h

/-- A digit starts no name. -/
theorem named?_of_isDecimalDigit (hd : Text.isDecimalDigit d) : named? (d :: cs) = none := by
  have hhead : ∀ {name : String}, String.ofList ((d :: cs).map Char.toLower) = name →
      name.toList.head?.any Text.isDecimalDigit = true := by
    rintro _ rfl
    rw [String.toList_ofList, List.map_cons, toLower_of_isDecimalDigit hd]
    exact hd
  unfold named?
  rw [splitSign_of_isDecimalDigit hd]
  dsimp only
  split
  case h_1 heq => exact absurd (hhead heq) (by decide)
  case h_2 heq => exact absurd (hhead heq) (by decide)
  case h_3 heq => exact absurd (hhead heq) (by decide)
  case h_4 => rfl

end Digits

end Number

namespace Numeral

variable {n : Numeral}

theorem IsAscii.whole (h : n.IsAscii) : ∀ d ∈ n.whole, d.isDigit :=
  fun d hd => h d (List.mem_append_left _ hd)

theorem IsAscii.fraction (h : n.IsAscii) : ∀ d ∈ n.fraction.getD [], d.isDigit :=
  fun d hd => h d (List.mem_append_right _ hd)

theorem mem_chars {c : Char} : c ∈ n.chars ↔ c ∈ n.digits ∨ c = '.' ∧ n.fraction.isSome := by
  unfold chars digits
  cases n.fraction with
  | none => simp
  | some es => simp [or_assoc, or_comm (a := c = '.')]

theorem isDecimalDigit_chars (n : Numeral) : ∀ c ∈ n.chars, Text.isDecimalDigit c ∨ c = '.' :=
  fun c hc => (mem_chars.mp hc).imp (n.isDecimalDigit c) And.left

open Number

/-- The parts of a numeral are found as they were written. -/
theorem ofChars?_chars (h : n.IsAscii) :
    Spelling.ofChars? .ten n.chars = some ⟨.ten, n.whole, n.fraction.getD [], 0⟩ := by
  have hfraction := h.fraction
  unfold chars
  cases hn : n.fraction with
  | none =>
    rw [Option.elim_none, List.append_nil]
    exact ofChars?_integer h.whole n.whole_ne_nil
  | some es =>
    rw [hn] at hfraction
    exact ofChars?_decimal h.whole n.whole_ne_nil hfraction

/-- With other digits there are no parts. -/
theorem ofChars?_chars_eq_none (h : ¬ n.IsAscii) : Spelling.ofChars? .ten n.chars = none := by
  cases hs : Spelling.ofChars? .ten n.chars with
  | none => rfl
  | some s =>
    refine absurd (fun d hd => ?_) h
    exact isDigit_of_ofChars? n.isDecimalDigit_chars hs (mem_chars.mpr (.inl hd)) (n.isDecimalDigit d hd)

/-- A numeral is read by its parts. -/
theorem read?_text_eq (n : Numeral) :
    read? n.text = (Spelling.ofChars? .ten n.chars).elim none fun s =>
      if s.value.isInf then none else some s.value := by
  obtain ⟨d, ds, hchars, hd⟩ : ∃ d ds, n.chars = d :: ds ∧ Text.isDecimalDigit d := by
    obtain ⟨d, ds, hds⟩ := List.exists_cons_of_ne_nil n.whole_ne_nil
    exact ⟨d, _, by rw [chars, hds, List.cons_append], n.isDecimalDigit d (by simp [hds])⟩
  have hgaps : gapsInside .ten '.' n.chars = true := by
    refine gapsInside_of_digits .ten (by decide) fun c hc => ?_
    rcases n.isDecimalDigit_chars c hc with hc | rfl
    · exact ne_of_isDecimalDigit hc (by decide)
    · decide
  have hsign : splitSign n.chars = (false, n.chars) := by rw [hchars, splitSign_of_isDecimalDigit hd]
  have hname : named? n.chars = none := by rw [hchars, named?_of_isDecimalDigit hd]
  unfold read?
  rw [text, String.toList_ofList, hsign]
  dsimp only
  rw [splitRadix_of_digits n.isDecimalDigit_chars]
  dsimp only
  cases Spelling.ofChars? .ten n.chars with
  | none => exact hname
  | some s =>
    dsimp only
    have hbefore : (if Radix.ten = .sixteen then '0' else '.') = '.' := rfl
    rw [hbefore, hgaps, Bool.true_and, Option.elim_some]
    cases s.value.isInf <;> rfl

/-- The value of a numeral, as a decimal. -/
def decimal (n : Numeral) : Decimal :=
  ⟨Nat.ofDigitChars 10 n.digits 0, -((n.fraction.getD []).length : ℤ)⟩

theorem toRat_decimal (n : Numeral) : n.decimal.toRat = n.value := by
  show (_ : ℚ) * 10 ^ (-_ : ℤ) = _ / _
  rw [zpow_neg, zpow_natCast, ← div_eq_mul_inv]
  rfl

/-- A numeral in the digits `0` to `9` is read as the number nearest to its value. -/
theorem read?_text (h : n.IsAscii) :
    read? n.text = if n.decimal.nearest.isInf then none else some n.decimal.nearest := by
  have hvalue : (⟨.ten, n.whole, n.fraction.getD [], 0⟩ : Spelling).value = n.decimal.nearest := by
    have hplaces : (n.fraction.getD []).filter Radix.ten.isDigit = n.fraction.getD [] :=
      List.filter_eq_self.mpr h.fraction
    show Decimal.nearest ⟨Radix.ten.value n.digits, 0 - ((List.filter _ _).length : ℤ)⟩ = _
    rw [hplaces, radix_value h, zero_sub]
    rfl
  rw [read?_text_eq, ofChars?_chars h, Option.elim_some, hvalue]

/-- A numeral is read exactly if it is written in the digits `0` to `9` and its value does not reach the
limit. -/
theorem isSome_read?_text (n : Numeral) : (read? n.text).isSome ↔ n.IsAscii ∧ n.value < limit := by
  by_cases h : n.IsAscii
  · rw [read?_text h, ← not_le, ← toRat_decimal, ← Decimal.isInf_nearest]
    cases n.decimal.nearest.isInf <;> simp [h]
  · rw [read?_text_eq, ofChars?_chars_eq_none h]
    simp [h]

end Numeral

end Offside
