import Offside.Upshot
import Offside.Proofs.Grammar.Lookahead
import Offside.Proofs.Grammar.Progress
import Offside.Proofs.Token.Lossless

/-! Every source text is answered.

A text is read as a program, or it has no tokens, or its tokens are those of no program: nothing else
comes of loading it. A quoted character that holds none would be a fourth case, and no text has such a
token (`character_of_lex`). That reading comes to an end at all is said of each of its loops and of
each production that holds itself (`Parser.Recurring`). -/
namespace Offside

/-! ### Quoted characters -/

theorem Lexeme.text_of_character {kind : Kind} {text : String} {written rest : List Char}
    (h : Lexeme kind text written rest) (hkind : kind = .character) : text.length = 1 := by
  have hno : kind ∉ [Kind.text, .character, .newline, .indent, .dedent] → False := by simp [hkind]
  cases h with
  | word => exact (hno (reserved_kinds _)).elim
  | single hk => exact (hno (single_kinds hk)).elim
  | pair hk => exact (hno (pair_kinds hk)).elim
  | character => simp
  | integer | decimal | text | newline => cases hkind

/-- A quoted character of a text is one character. -/
theorem character_of_lex {file : String} {source : List Char} {tokens : List Token}
    (h : lex file source = .ok tokens) :
    ∀ t ∈ tokens, t.kind = .character → t.text.length = 1 := by
  intro t ht hkind
  obtain ⟨written, rest, hlex⟩ := exists_lexeme_of_lex h ht (by simp [Token.isLexical, hkind])
  exact hlex.text_of_character hkind

/-- Only a quoted character without one is blamed for having none. -/
theorem cause_of_parse {tokens : List Token} {e : ParseError}
    (htokens : ∀ t ∈ tokens, t.kind = .character → t.text ≠ "") (h : parse tokens = .error e) :
    e.cause ≠ .emptyCharacter := by
  intro hcause
  obtain ⟨s', hrun, -⟩ := parse_eq_error h
  obtain ⟨ts, hm, hends, -⟩ := Parser.program_leads.fails _ (Parser.bounded_ofTokens tokens) e s' hrun
  -- Such an error ends in the token that it blames, so that token was read.
  have htaken : ⟨.character, e.span, ""⟩ ∈ e.taken? := by simp [ParseError.taken?, hcause]
  obtain ⟨us, rfl⟩ := hends _ htaken
  have hmem : (⟨.character, e.span, ""⟩ : Token) ∈ tokens := by
    have hrest : tokens = us ++ [⟨.character, e.span, ""⟩] ++ s'.cursor.rest := hm.rest
    simp [hrest]
  exact htokens _ hmem rfl rfl

/-! ### Loops and productions -/

namespace Parser

/-- Every loop of the grammar and every production that holds itself goes on only after a token. -/
structure Recurring : Prop where
  newlines : Recurs (countPass .newline) (withBound (countOf .newline))
  negations : Recurs (countPass .not) (withBound (countOf .not))
  names : Recurs (separatorPass .comma name) (withBound (afterSeparators .comma name))
  declarations : Recurs (separatorPass .comma declaration) (withBound (afterSeparators .comma declaration))
  alternatives : Recurs (separatorPass .or (conjunction (primary expression)))
    (withBound (afterSeparators .or (conjunction (primary expression))))
  /-- The operands of a conjunction, a sum and a product. -/
  operands : ∀ op? operand, operand ∈ [primary expression, product (primary expression),
      comparison (primary expression)] →
    RecursWith (chainPass op? operand) fun left => withBound fun bound => chainAfter op? operand bound left
  arguments : Recurs (argumentPass expression) (withBound (argumentsLeft expression))
  modifiers : Recurs modifierPass (withBound modifiers)
  headers : Recurs (blockPass (line header)) (withBound (untilDedent (line header)))
  statements : Recurs (blockPass statement) (withBound (untilDedent statement))
  bodyItems : Recurs (blockPass bodyItem) (withBound (untilDedent bodyItem))
  classItems : Recurs (blockPass classItem) (withBound (untilDedent classItem))
  programItems : Recurs programPass (withBound programItems)
  expression : Recurs (fun nested => disjunction (primary nested)) expression
  statement : Recurs statementPass statement

theorem recurring : Recurring := by
  have hprimary : Sound (primary Parser.expression) Grammar.Primary := primary_sound expression_sound
  exact {
    newlines := countOf_recurs .newline
    negations := countOf_recurs .not
    names := afterSeparators_recurs .comma name_sound.onward
    declarations := afterSeparators_recurs .comma declaration_sound.onward
    alternatives := afterSeparators_recurs .or (conjunction_sound hprimary).onward
    operands := by
      intro op? operand hoperand
      simp only [List.mem_cons, List.not_mem_nil, or_false] at hoperand
      rcases hoperand with rfl | rfl | rfl
      · exact chainAfter_recurs op? hprimary.onward
      · exact chainAfter_recurs op? (chain_sound hprimary).onward
      · exact chainAfter_recurs op? (comparison_sound hprimary).onward
    arguments := argumentsLeft_recurs expression_sound
    modifiers := modifiers_recurs
    headers := untilDedent_recurs (line_sound header_sound) (line_starts header_starts)
    statements := untilDedent_recurs statement_sound statement_starts
    bodyItems := untilDedent_recurs bodyItem_sound bodyItem_starts
    classItems := untilDedent_recurs classItem_sound classItem_starts
    programItems := programItems_recurs
    expression := expression_recurs
    statement := statement_recurs }

end Parser

/-! ### Loading -/

theorem Program.load_of_lex_error {file : String} {source : List Char} {e : LexError}
    (h : lex file source = .error e) : (Program.load file source).1 = .error (.lex e) := by
  have hresult : (Scanner.scan file source).result = .error e := h
  simp only [Program.load, hresult]

theorem Program.load_of_lex_ok {file : String} {source : List Char} {tokens : List Token}
    (h : lex file source = .ok tokens) :
    (Program.load file source).1 = (parse tokens).mapError .parse := by
  have hresult : (Scanner.scan file source).result = .ok tokens := h
  simp only [Program.load, hresult, parse]
  cases (Parsed.ofTokens tokens).program <;> rfl

/-- **Every source text is answered**: by what is wrong with its characters, by what is wrong with its
tokens, or by its program. A quoted character of it is one character, so none is ever found empty; nor
is one among tokens of any other origin, unless one of them is. And reading goes on only after a
token, in every loop and wherever something is nested. -/
theorem load_total (file : String) (source : List Char) (tokens : List Token) :
    ((∃ e, lex file source = .error e ∧ (Program.load file source).1 = .error (.lex e)) ∨
      ∃ ts, lex file source = .ok ts ∧
        ((∃ e, parse ts = .error e ∧ e.cause ≠ .emptyCharacter ∧
            (Program.load file source).1 = .error (.parse e)) ∨
          ∃ p, parse ts = .ok p ∧ (Program.load file source).1 = .ok p)) ∧
      (lex file source = .ok tokens → ∀ t ∈ tokens, t.kind = .character → t.text.length = 1) ∧
      ((∀ t ∈ tokens, t.kind = .character → t.text ≠ "") →
        (∃ e, parse tokens = .error e ∧ e.cause ≠ .emptyCharacter) ∨ ∃ p, parse tokens = .ok p) ∧
      Parser.Recurring := by
  refine ⟨?_, character_of_lex, fun htokens => ?_, Parser.recurring⟩
  · cases hlex : lex file source with
    | error e => exact .inl ⟨e, rfl, Program.load_of_lex_error hlex⟩
    | ok ts =>
      have hload := Program.load_of_lex_ok hlex
      refine .inr ⟨ts, rfl, ?_⟩
      cases hparse : parse ts with
      | ok p => exact .inr ⟨p, rfl, by rw [hload, hparse]; rfl⟩
      | error e =>
        refine .inl ⟨e, rfl, cause_of_parse (fun t ht hkind => ?_) hparse, by rw [hload, hparse]; rfl⟩
        intro hempty
        have hlen := character_of_lex hlex t ht hkind
        simp [hempty] at hlen
  · cases hparse : parse tokens with
    | error e => exact .inl ⟨e, rfl, cause_of_parse htokens hparse⟩
    | ok p => exact .inr ⟨p, rfl⟩

end Offside
