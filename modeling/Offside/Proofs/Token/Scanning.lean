import Offside.Token.Scanner

/-! What the parts of the scanner do, as equations: beginning something, closing levels, and the end of
a text. -/
namespace Offside.Scanner

variable {s : Scanner}

/-- Nothing more is read. -/
def Failed (s : Scanner) : Prop := ∃ e, s.mode = .failed e

/-! ### Beginning something -/

/-- What a character other than a line end begins. -/
def beginning (place : Position) (c : Char) : Mode :=
  if c = '\x7b' then .comment place 0
  else if c = '"' then .text place []
  else if c = '\'' then .quote place
  else if Text.isLetter c then .word place [c]
  else if Text.isDecimalDigit c then .number place [c] false
  else if Text.isBlank c then .gap
  else .symbol place c

theorem beginning_ne_margin (place : Position) (c : Char) (m : Margin) : beginning place c ≠ .margin m := by
  unfold beginning
  repeat' split
  all_goals simp

theorem begin_of_not_failed {c : Char} (h : ¬ s.Failed) :
    s.begin c =
      if c = '\n' then
        { s.emit .newline (.single s.here.right) "" with
          here := s.here.right.nextLine, mode := .margin .empty }
      else { s with here := s.here.right, mode := beginning s.here.right c } := by
  unfold begin
  split
  · exact absurd ⟨_, ‹_›⟩ h
  · rfl

/-! ### Levels -/

/-- Levels close innermost first, each with a token. -/
theorem closeLevels_eq (place : Position) (close : Nat → Bool) (levels : List Nat) (tokens : List Token) :
    closeLevels place close levels tokens =
      (levels.dropWhile close,
        List.replicate (levels.takeWhile close).length ⟨.dedent, .single place, ""⟩ ++ tokens) := by
  induction levels generalizing tokens with
  | nil => rfl
  | cons level outer ih =>
    unfold closeLevels
    cases hclose : close level with
    | false => simp [hclose]
    | true => simp [hclose, ih, List.replicate_succ', List.append_assoc]

theorem closeLevels_all (place : Position) (levels : List Nat) (tokens : List Token) :
    closeLevels place (fun _ => true) levels tokens =
      ([], List.replicate levels.length ⟨.dedent, .single place, ""⟩ ++ tokens) := by
  induction levels generalizing tokens with
  | nil => rfl
  | cons level outer ih => simp [closeLevels, ih, List.replicate_succ', List.append_assoc]

/-! ### The end of the text -/

/-- A line that has tokens and no end yet. -/
def unfinished (ts : List Token) : Bool := ts.getLast?.any (·.kind ≠ .newline)

/-- What is added at the end of a text: the end of an unfinished line and the ends of open levels. -/
def ending (place : Position) (made : List Token) (levels : Nat) : List Token :=
  (if unfinished made then [⟨.newline, .single place, ""⟩] else []) ++
    List.replicate levels ⟨.dedent, .single place, ""⟩

theorem settle_of_not_failed (h : ¬ s.Failed) :
    s.settle = { s with
      levels := []
      tokens := (ending s.here.right s.made s.levels.length).reverse ++ s.tokens } := by
  unfold settle
  split
  · exact absurd ⟨_, ‹_›⟩ h
  · simp only [closeLevels_all]
    cases htokens : s.tokens with
    | nil => simp [ending, unfinished, made, htokens]
    | cons last earlier =>
      by_cases hlast : last.kind = .newline <;>
        simp [ending, unfinished, made, htokens, hlast, emit]

theorem lex_eq_ok {file : String} {source : List Char} {tokens : List Token} (h : lex file source = .ok tokens) :
    let s := ((start file).feedAll source).close
    ¬ s.Failed ∧ tokens = s.made ++ ending s.here.right s.made s.levels.length := by
  intro s
  have hresult : s.settle.result = .ok tokens := h
  have hfailed : ¬ s.Failed := by
    rintro ⟨e, he⟩
    rw [settle, he] at hresult
    simp [result, he] at hresult
  refine ⟨hfailed, ?_⟩
  rw [settle_of_not_failed hfailed] at hresult
  unfold result at hresult
  split at hresult
  · cases hresult
  · simpa [made] using (Except.ok.inj hresult).symm

end Offside.Scanner
