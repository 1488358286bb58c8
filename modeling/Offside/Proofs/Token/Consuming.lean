import Offside.Token.Cursor

/-! The cursor as a list that is consumed from the front, for every sequence of calls.

What a cursor is asked and what it answers are data here, so that a history of calls is a list. After any
history the tokens that were given away, followed by those still to come, are the sequence that the cursor
started with. All that a cursor answers can be read off that sequence and the number of tokens given away;
only an answer that gives a token away moves it, by that one token. -/
namespace Offside

/-- What a cursor can be asked. One kind at least is expected. -/
inductive CursorCall where
  | done
  | peek (offset : Int)
  | peekIs (offset : Int) (kinds : List Kind)
  | take (kind : Kind)
  | expect (kind : Kind) (others : List Kind)
  | line
  | column
  | location
  deriving DecidableEq, Repr

/-- What a cursor answers. -/
inductive CursorAnswer where
  | truth (holds : Bool)
  /-- A token that is only looked at. -/
  | sight (token : Option Token)
  /-- A token that is given away. -/
  | gift (token : Token)
  /-- No token is given away. -/
  | refusal
  | failure (error : ParseError)
  /-- A line or a column; none at the end. -/
  | number (n : Option Nat)
  | span (s : Span)
  deriving DecidableEq, Repr

/-- The call may take a token. -/
def CursorCall.takes : CursorCall → Bool
  | .take _ | .expect _ _ => true
  | _ => false

def CursorAnswer.gift? : CursorAnswer → Option Token
  | .gift token => some token
  | _ => none

namespace Cursor

/-- One call. -/
def serve (c : Cursor) : CursorCall → CursorAnswer × Cursor
  | .done => (.truth c.done, c)
  | .peek offset => (.sight (c.peek? offset), c)
  | .peekIs offset kinds => (.truth (c.peekIs offset kinds), c)
  | .take kind =>
    match c.match? kind with
    | some (token, next) => (.gift token, next)
    | none => (.refusal, c)
  | .expect kind others =>
    match c.expect (kind :: others) with
    | .ok (token, next) => (.gift token, next)
    | .error error => (.failure error, c)
  | .line => (.number c.line?, c)
  | .column => (.number c.column?, c)
  | .location => (.span c.location, c)

/-- The cursor after a history of calls. -/
def after (c : Cursor) (calls : List CursorCall) : Cursor := calls.foldl (fun c call => (c.serve call).2) c

/-- The answers to a history of calls. -/
def answers (c : Cursor) : List CursorCall → List CursorAnswer
  | [] => []
  | call :: calls => (c.serve call).1 :: (c.serve call).2.answers calls

/-- The tokens that a history of calls is given, in order. -/
def given (c : Cursor) (calls : List CursorCall) : List Token := (c.answers calls).filterMap CursorAnswer.gift?

end Cursor

/-! ### The answers, read off a sequence -/

section Places
variable (tokens : List Token) (n : Nat)

/-- The token at a place, counted from zero. There is none outside the sequence, on either side. -/
def tokenAt (i : Int) : Option Token := if 0 ≤ i then tokens[i.toNat]? else none

/-- The span of the token at a place, or else of the last token. -/
def spanAt : Span := ((tokens[n]?).or tokens.getLast?).elim (.single ⟨1, 1, ""⟩) Token.span

/-- The error of an expectation that the token at a place does not meet. -/
def complaintAt (kind : Kind) (others : List Kind) : ParseError :=
  ⟨(tokens[n]?).elim (.endOfTokens kind) fun token => .unexpected token.kind (kind :: others), spanAt tokens n⟩

/-- What is answered when `n` tokens of the sequence have been given away. -/
def CursorCall.answerAt : CursorCall → CursorAnswer
  | .done => .truth (tokens.length ≤ n)
  | .peek offset => .sight (tokenAt tokens (n + offset))
  | .peekIs offset kinds => .truth ((tokenAt tokens (n + offset)).any (·.kind ∈ kinds))
  | .take kind => ((tokens[n]?).filter (·.kind = kind)).elim .refusal .gift
  | .expect kind others =>
    ((tokens[n]?).filter (·.kind ∈ kind :: others)).elim (.failure (complaintAt tokens n kind others)) .gift
  | .line => .number ((tokens[n]?).map (·.span.start.line))
  | .column => .number ((tokens[n]?).map (·.span.start.column))
  | .location => .span (spanAt tokens n)

end Places

namespace Cursor

variable (c : Cursor)

theorem getElem?_tokens (k : Nat) : c.tokens[c.taken.length + k]? = c.rest[k]? := by
  rw [tokens, List.getElem?_append_right (by simp), List.length_reverse, Nat.add_sub_cancel_left]

theorem head?_rest : c.rest.head? = c.tokens[c.taken.length]? := by
  rw [List.head?_eq_getElem?]
  exact (c.getElem?_tokens 0).symm

/-- Looking ahead and looking back are looking at one sequence, from the boundary. -/
theorem peek?_eq (offset : Int) : c.peek? offset = tokenAt c.tokens (c.taken.length + offset) := by
  unfold tokenAt
  cases offset with
  | ofNat k =>
    have hplace : ((c.taken.length : Int) + Int.ofNat k).toNat = c.taken.length + k := by
      rw [Int.ofNat_eq_natCast]
      omega
    rw [if_pos (by rw [Int.ofNat_eq_natCast]; omega), hplace, getElem?_tokens]
    rfl
  | negSucc k =>
    show c.taken[k]? = _
    by_cases hk : k < c.taken.length
    · have hplace : ((c.taken.length : Int) + Int.negSucc k).toNat = c.taken.length - 1 - k := by
        rw [Int.negSucc_eq]
        omega
      rw [if_pos (by rw [Int.negSucc_eq]; omega), hplace, tokens,
        List.getElem?_append_left (by rw [List.length_reverse]; omega), List.getElem?_reverse (by omega)]
      congr 1
      omega
    · rw [if_neg (by rw [Int.negSucc_eq]; omega), List.getElem?_eq_none (by omega)]

theorem done_eq : c.done = decide (c.tokens.length ≤ c.taken.length) := by
  cases hrest : c.rest <;> simp [done, tokens, hrest]

theorem location_eq : c.location = spanAt c.tokens c.taken.length := by
  rw [spanAt, ← head?_rest, tokens]
  unfold location
  cases hrest : c.rest with
  | cons token rest => rfl
  | nil => cases htaken : c.taken <;> simp

theorem complaint_eq (kind : Kind) (others : List Kind) :
    c.complaint (kind :: others) = complaintAt c.tokens c.taken.length kind others := by
  rw [complaintAt, ← location_eq, ← head?_rest]
  unfold complaint location
  cases hrest : c.rest <;> rfl

/-- The kind that is tried first does not matter: the next token is taken if it is of any of them. -/
theorem matchFirst?_eq (kinds : List Kind) : c.matchFirst? kinds = c.take? (·.kind ∈ kinds) := by
  induction kinds with
  | nil => cases hrest : c.rest <;> simp [matchFirst?, take?, hrest]
  | cons kind kinds ih =>
    rw [matchFirst?, ih]
    cases hrest : c.rest with
    | nil => simp [match?, take?, hrest]
    | cons token rest => by_cases hkind : token.kind = kind <;> simp [match?, take?, hrest, hkind]

/-- The next token, if it is accepted, and the cursor behind it. -/
theorem take?_eq (accept : Token → Bool) :
    c.take? accept =
      ((c.tokens[c.taken.length]?).filter accept).map fun token => (token, ⟨token :: c.taken, c.rest.tail⟩) := by
  rw [← head?_rest]
  unfold take?
  cases hrest : c.rest with
  | nil => rfl
  | cons token rest => by_cases htoken : accept token <;> simp [htoken, Option.filter_some]

theorem exists_rest_of_take? {accept : Token → Bool} {token : Token} {next : Cursor}
    (h : c.take? accept = some (token, next)) : ∃ rest, c.rest = token :: rest ∧ next = ⟨token :: c.taken, rest⟩ := by
  rw [take?_eq, Option.map_eq_some_iff] at h
  obtain ⟨token, hnext, heq⟩ := h
  cases heq
  rw [← head?_rest, Option.filter_eq_some_iff, List.head?_eq_some_iff] at hnext
  obtain ⟨⟨rest, hrest⟩, -⟩ := hnext
  exact ⟨rest, hrest, by rw [hrest, List.tail_cons]⟩

/-! ### One call -/

/-- The answer to any call depends on the sequence and on how many of its tokens were given away. -/
theorem serve_answer (call : CursorCall) : (c.serve call).1 = call.answerAt c.tokens c.taken.length := by
  cases call with
  | done => exact congrArg CursorAnswer.truth c.done_eq
  | peek offset => exact congrArg CursorAnswer.sight (c.peek?_eq offset)
  | peekIs offset kinds => simp only [serve, peekIs, peek?_eq, CursorCall.answerAt]
  | take kind =>
    simp only [serve, match?, take?_eq, CursorCall.answerAt]
    cases (c.tokens[c.taken.length]?).filter (·.kind = kind) <;> rfl
  | expect kind others =>
    simp only [serve, expect, matchFirst?_eq, take?_eq, complaint_eq, CursorCall.answerAt]
    cases (c.tokens[c.taken.length]?).filter (·.kind ∈ kind :: others) <;> rfl
  | line => simp only [serve, line?, head?_rest, CursorCall.answerAt]
  | column => simp only [serve, column?, head?_rest, CursorCall.answerAt]
  | location => exact congrArg CursorAnswer.span c.location_eq

/-- A call that gives no token away leaves the cursor as it was. One that does moves it behind that token,
which was the next. -/
theorem serve_moves (call : CursorCall) :
    (c.serve call).1.gift? = none ∧ (c.serve call).2 = c ∨
      ∃ token rest, call.takes = true ∧ (c.serve call).1.gift? = some token ∧ c.rest = token :: rest ∧
        (c.serve call).2 = ⟨token :: c.taken, rest⟩ := by
  cases call with
  | take kind =>
    rw [serve]
    cases htake : c.match? kind with
    | none => exact .inl ⟨rfl, rfl⟩
    | some taken =>
      obtain ⟨token, next⟩ := taken
      obtain ⟨rest, hrest, hnext⟩ := c.exists_rest_of_take? htake
      exact .inr ⟨token, rest, rfl, rfl, hrest, hnext⟩
  | expect kind others =>
    rw [serve, expect, matchFirst?_eq]
    cases htake : c.take? (·.kind ∈ kind :: others) with
    | none => exact .inl ⟨rfl, rfl⟩
    | some taken =>
      obtain ⟨token, next⟩ := taken
      obtain ⟨rest, hrest, hnext⟩ := c.exists_rest_of_take? htake
      exact .inr ⟨token, rest, rfl, rfl, hrest, hnext⟩
  | done | peek | peekIs | line | column | location => exact .inl ⟨rfl, rfl⟩

theorem serve_tokens (call : CursorCall) : (c.serve call).2.tokens = c.tokens := by
  rcases c.serve_moves call with ⟨-, hsame⟩ | ⟨token, rest, -, -, hrest, hnext⟩
  · rw [hsame]
  · rw [hnext, tokens, tokens, hrest, List.reverse_cons, List.append_assoc, List.singleton_append]

theorem serve_taken (call : CursorCall) :
    (c.serve call).2.taken.reverse = c.taken.reverse ++ (c.serve call).1.gift?.toList := by
  rcases c.serve_moves call with ⟨hgift, hsame⟩ | ⟨token, rest, -, hgift, -, hnext⟩
  · rw [hsame, hgift, Option.toList_none, List.append_nil]
  · rw [hnext, hgift, List.reverse_cons, Option.toList_some]

/-! ### A history of calls -/

theorem after_tokens (calls : List CursorCall) : (c.after calls).tokens = c.tokens := by
  induction calls generalizing c with
  | nil => rfl
  | cons call calls ih => exact (ih _).trans (c.serve_tokens call)

theorem after_taken (calls : List CursorCall) : (c.after calls).taken.reverse = c.taken.reverse ++ c.given calls := by
  induction calls generalizing c with
  | nil => exact (List.append_nil _).symm
  | cons call calls ih =>
    have hgiven : c.given (call :: calls) = (c.serve call).1.gift?.toList ++ (c.serve call).2.given calls := by
      rw [given, answers, List.filterMap_cons]
      cases (c.serve call).1.gift? <;> rfl
    rw [hgiven, ← List.append_assoc, ← serve_taken]
    exact ih _

/-- **A cursor consumes its sequence from the front.** After any history of calls the tokens that were given
away, in order, and those still to come make up the sequence. A look so many places from the boundary
between the two, in either direction, finds what the sequence has there. Whatever is called next, the answer
is what the sequence has at and around that boundary, and either no token is given away and the cursor is as
it was, or the call is one that takes and the next token is the one that is given. -/
theorem given_append_rest (sequence : List Token) (calls : List CursorCall) :
    (ofTokens sequence).given calls ++ ((ofTokens sequence).after calls).rest = sequence ∧
      (∀ offset : Int, ((ofTokens sequence).after calls).peek? offset =
        tokenAt sequence (((ofTokens sequence).given calls).length + offset)) ∧
      ∀ call : CursorCall,
        (((ofTokens sequence).after calls).serve call).1 =
          call.answerAt sequence ((ofTokens sequence).given calls).length ∧
        ((((ofTokens sequence).after calls).serve call).1.gift? = none ∧
            (((ofTokens sequence).after calls).serve call).2 = (ofTokens sequence).after calls ∨
          ∃ token, call.takes = true ∧ (((ofTokens sequence).after calls).serve call).1.gift? = some token ∧
            ((ofTokens sequence).after calls).rest =
              token :: (((ofTokens sequence).after calls).serve call).2.rest) := by
  have htokens : ((ofTokens sequence).after calls).tokens = sequence := (ofTokens sequence).after_tokens calls
  have hgiven : ((ofTokens sequence).after calls).taken.reverse = (ofTokens sequence).given calls :=
    (ofTokens sequence).after_taken calls
  have hlength : ((ofTokens sequence).given calls).length = ((ofTokens sequence).after calls).taken.length := by
    rw [← hgiven, List.length_reverse]
  generalize (ofTokens sequence).after calls = c at htokens hgiven hlength ⊢
  rw [hlength]
  refine ⟨?_, fun offset => ?_, fun call => ⟨?_, ?_⟩⟩
  · rw [← hgiven]
    exact htokens
  · rw [c.peek?_eq, htokens]
  · rw [c.serve_answer, htokens]
  · rcases c.serve_moves call with hsame | ⟨token, rest, htakes, hgift, hrest, hnext⟩
    · exact .inl hsame
    · exact .inr ⟨token, htakes, hgift, by rw [hnext, hrest]⟩

end Cursor

end Offside
