import Offside.Proofs.Grammar.Complaint
import Offside.Proofs.Number.Numeral
import Offside.Proofs.Program.Load

/-! The numbers of a source text.

What the scanner takes for a number is a numeral, in the decimal digits of any script. The reader knows
the digits `0` to `9` only, and no number is as large as `limit`; any other numeral it reads. -/
namespace Offside

/-- What is taken for a number is a numeral. -/
theorem Lexeme.numeral {kind : Kind} {text : String} {written rest : List Char}
    (h : Lexeme kind text written rest) (hkind : kind = .number) : ∃ n : Numeral, text = n.text := by
  cases h with
  | integer hne hds _ =>
    refine ⟨⟨_, none, hne, by simpa using hds⟩, ?_⟩
    simp [Numeral.text, Numeral.chars]
  | decimal hne hds hes _ =>
    exact ⟨⟨_, some _, hne, fun d hd => (List.mem_append.mp hd).elim (hds d) (hes d)⟩, rfl⟩
  | word =>
    unfold Kind.reserved? at hkind
    split at hkind <;> cases hkind
  | single hk =>
    unfold Kind.single? at hk
    split at hk <;> cases hk <;> cases hkind
  | pair hk =>
    unfold Kind.pair? at hk
    split at hk <;> cases hk <;> cases hkind
  | text | character | newline => cases hkind

/-- The numbers of a text are numerals. -/
theorem numeral_of_lex {file : String} {source : List Char} {tokens : List Token}
    (h : lex file source = .ok tokens) :
    ∀ t ∈ tokens, t.kind = .number → ∃ n : Numeral, t.text = n.text := by
  intro t ht hkind
  obtain ⟨written, rest, hlex⟩ := exists_lexeme_of_lex h ht (by simp [Token.isLexical, hkind])
  exact hlex.numeral hkind

/-- A text that fails to load at a number has tokens, and fails to be read from them. -/
theorem Program.load_parse_error {file : String} {source : List Char} {e : ParseError}
    (h : (Program.load file source).1 = .error (.parse e)) :
    ∃ tokens, lex file source = .ok tokens ∧ parse tokens = .error e := by
  cases hlex : lex file source with
  | error e' =>
    rw [Program.load_of_lex_error hlex] at h
    cases h
  | ok tokens =>
    refine ⟨tokens, rfl, ?_⟩
    rw [Program.load_of_lex_ok hlex] at h
    cases hparse : parse tokens with
    | ok p =>
      rw [hparse] at h
      cases h
    | error e' =>
      rw [hparse] at h
      cases h
      rfl

/-- Every number of a text is a numeral, and is read exactly if it is one in the digits `0` to `9` with a
value below the limit. So a text that fails to load because of a malformed number has that number among
its tokens, and it is no such numeral. -/
theorem numbers_read (file : String) (source : List Char) :
    (∀ tokens, lex file source = .ok tokens → ∀ t ∈ tokens, t.kind = .number →
      ∃ n : Numeral, t.text = n.text ∧
        ((Number.read? t.text).isSome ↔ n.IsAscii ∧ n.value < Number.limit)) ∧
    ∀ e text, (Program.load file source).1 = .error (.parse e) → e.cause = .malformedNumber text →
      ∃ tokens, lex file source = .ok tokens ∧ ⟨.number, e.span, text⟩ ∈ tokens ∧
        ∃ n : Numeral, text = n.text ∧ ¬ (n.IsAscii ∧ n.value < Number.limit) := by
  constructor
  · intro tokens hlex t ht hkind
    obtain ⟨n, hn⟩ := numeral_of_lex hlex t ht hkind
    exact ⟨n, hn, hn ▸ n.isSome_read?_text⟩
  · intro e text hload hcause
    obtain ⟨tokens, hlex, hparse⟩ := Program.load_parse_error hload
    obtain ⟨hmem, hread⟩ := malformed_of_parse hparse hcause
    obtain ⟨n, hn⟩ := numeral_of_lex hlex _ hmem rfl
    refine ⟨tokens, hlex, hmem, n, hn, fun hreadable => ?_⟩
    have hsome := n.isSome_read?_text.mpr hreadable
    rw [← hn, hread] at hsome
    cases hsome

/-- What is wrong with a text that has tokens but is no program. -/
def Program.blame? (source : List Char) : Option ParseCause :=
  match (Program.load "" source).1 with
  | .error (.parse e) => some e.cause
  | _ => none

theorem Program.load_of_blame? {source : List Char} {cause : ParseCause}
    (h : Program.blame? source = some cause) :
    ∃ e, (Program.load "" source).1 = .error (.parse e) ∧ e.cause = cause := by
  unfold Program.blame? at h
  split at h
  case h_1 e hload =>
    cases h
    exact ⟨e, hload, rfl⟩
  case h_2 => cases h

/-- A method that assigns a number. -/
def assigning (number : List Char) : List Char := "class a\n\tb()\n\t\tc = ".toList ++ number ++ ['\n']

theorem numbers_read_assigning :
    (∃ tokens, lex "" "1.5".toList = .ok tokens ∧ ∃ t ∈ tokens, t.kind = .number ∧
      ∃ n : Numeral, t.text = n.text ∧
        ((Number.read? t.text).isSome ↔ n.IsAscii ∧ n.value < Number.limit)) ∧
    ∃ e, (Program.load "" (assigning ['٣'])).1 = .error (.parse e) ∧ e.cause = .malformedNumber "٣" ∧
      ∃ tokens, lex "" (assigning ['٣']) = .ok tokens ∧ ⟨.number, e.span, "٣"⟩ ∈ tokens ∧
        ∃ n : Numeral, "٣" = n.text ∧ ¬ (n.IsAscii ∧ n.value < Number.limit) := by
  constructor
  · exact ⟨_, rfl, _, List.mem_cons_self .., rfl,
      (numbers_read "" "1.5".toList).1 _ rfl _ (List.mem_cons_self ..) rfl⟩
  · have hblame : Program.blame? (assigning ['٣']) = some (.malformedNumber "٣") := by decide +kernel
    obtain ⟨e, hload, hcause⟩ := Program.load_of_blame? hblame
    exact ⟨e, hload, hcause, (numbers_read "" (assigning ['٣'])).2 e "٣" hload hcause⟩

theorem digit_cases {k : ℕ} {d : Char} (hd : d ∈ '1' :: List.replicate k '0' ++ []) : d = '1' ∨ d = '0' := by
  rw [List.append_nil] at hd
  exact (List.mem_cons.mp hd).imp id List.eq_of_mem_replicate

/-- A power of ten, written out. -/
def Numeral.powerOfTen (k : ℕ) : Numeral where
  whole := '1' :: List.replicate k '0'
  fraction := none
  whole_ne_nil := List.cons_ne_nil _ _
  isDecimalDigit d hd := by rcases digit_cases hd with rfl | rfl <;> decide

theorem Numeral.isAscii_powerOfTen (k : ℕ) : (powerOfTen k).IsAscii := by
  intro d hd
  rcases digit_cases hd with rfl | rfl <;> rfl

theorem Numeral.value_powerOfTen (k : ℕ) : (powerOfTen k).value = 10 ^ k := by
  have hone : 10 * 0 + ('1'.toNat - '0'.toNat) = 1 := rfl
  have hdigits : Nat.ofDigitChars 10 (powerOfTen k).digits 0 = 10 ^ k := by
    show Nat.ofDigitChars 10 ('1' :: (List.replicate k '0' ++ [])) 0 = _
    rw [List.append_nil, Nat.ofDigitChars_cons, hone, Nat.ofDigitChars_replicate_zero, Nat.mul_one]
  rw [value, hdigits, Nat.cast_pow]
  exact div_one _

/-- There are numbers in a text that are called malformed: digits of other scripts, and more digits than
any number has. -/
theorem malformed_numbers :
    Program.blame? (assigning ['٣']) = some (.malformedNumber "٣") ∧
      (lex "" (Numeral.powerOfTen 309).chars).toOption.map (·.map fun t => (t.kind, t.text)) =
        some [(.number, (Numeral.powerOfTen 309).text), (.newline, "")] ∧
      (Numeral.powerOfTen 309).IsAscii ∧ Number.read? (Numeral.powerOfTen 309).text = none := by
  refine ⟨by decide +kernel, by decide +kernel, Numeral.isAscii_powerOfTen 309,
    Option.not_isSome_iff_eq_none.mp ?_⟩
  rw [Numeral.isSome_read?_text, Numeral.value_powerOfTen]
  exact fun h => Number.limit_le.not_gt h.2

end Offside
