import Offside.Token.Scanner

/-! What it means that a source text is cut into tokens, said without a scanner.

A `Cut` takes a text apart into gaps and lexemes. A gap is white space and comments; a lexeme is
written in one way for each kind of token, and what may not follow it is part of what it is, so that
no lexeme can be continued. Places are counted from the text alone. -/
namespace Offside

/-! ### Places -/

/-- The place of the character that stands after `before`. -/
def placeAt (file : String) (before : List Char) : Position where
  line := before.count '\n' + 1
  column := (before.reverse.takeWhile (· ≠ '\n')).length + 1
  file

/-- One place comes before another: on an earlier line, or earlier on the same. -/
def Position.Before (p q : Position) : Prop :=
  p.line < q.line ∨ p.line = q.line ∧ p.column < q.column

instance (p q : Position) : Decidable (p.Before q) := inferInstanceAs (Decidable (_ ∨ _))

theorem Position.Before.trans {p q r : Position} (h : p.Before q) (h' : q.Before r) : p.Before r := by
  unfold Position.Before at *
  omega

theorem Position.Before.irrefl (p : Position) : ¬ p.Before p := by
  unfold Position.Before
  omega

theorem Position.Before.asymm {p q : Position} (h : p.Before q) : ¬ q.Before p :=
  fun h' => Position.Before.irrefl p (h.trans h')

section Places
variable {file : String} {before : List Char}

theorem placeAt_newline : placeAt file (before ++ ['\n']) = (placeAt file before).nextLine.right := by
  simp [placeAt, Position.nextLine, Position.right]

theorem placeAt_snoc {c : Char} (hc : c ≠ '\n') :
    placeAt file (before ++ [c]) = (placeAt file before).right := by
  simp [placeAt, Position.right, hc]

theorem before_snoc (c : Char) : (placeAt file before).Before (placeAt file (before ++ [c])) := by
  by_cases hc : c = '\n'
  · subst hc
    rw [placeAt_newline]
    exact .inl (Nat.lt_succ_self _)
  · rw [placeAt_snoc hc]
    exact .inr ⟨rfl, Nat.lt_succ_self _⟩

/-- Places only ever advance. -/
theorem before_append {cs : List Char} (hcs : cs ≠ []) :
    (placeAt file before).Before (placeAt file (before ++ cs)) := by
  induction cs generalizing before with
  | nil => exact absurd rfl hcs
  | cons c cs ih =>
    cases cs with
    | nil => exact before_snoc c
    | cons d cs =>
      have h := @ih (before ++ [c]) (List.cons_ne_nil _ _)
      rw [List.append_assoc] at h
      exact (before_snoc c).trans h

end Places

/-- The characters of a text whose places are in a span. What stands in front of the text is
`before`. -/
def sliceAfter (file : String) (span : Span) (before : List Char) : List Char → List Char
  | [] => []
  | c :: cs =>
    let place := placeAt file before
    if place.Before span.start ∨ span.stop.Before place then sliceAfter file span (before ++ [c]) cs
    else c :: sliceAfter file span (before ++ [c]) cs

/-- The characters of a source text whose places are in a span. -/
def slice (file : String) (source : List Char) (span : Span) : List Char :=
  sliceAfter file span [] source

/-! ### Gaps -/

/-- Text in which every brace has its partner. -/
inductive Balanced : List Char → Prop
  | nil : Balanced []
  | char {c cs} : c ≠ '\x7b' → c ≠ '\x7d' → Balanced cs → Balanced (c :: cs)
  | nested {xs ys} : Balanced xs → Balanced ys → Balanced ('\x7b' :: (xs ++ '\x7d' :: ys))

/-- What stands between lexemes: white space and comments. -/
inductive Gap : List Char → Prop
  | nil : Gap []
  | blank {c cs} : Text.isBlank c → Gap cs → Gap (c :: cs)
  | comment {xs cs} : Balanced xs → Gap cs → Gap ('\x7b' :: (xs ++ '\x7d' :: cs))

theorem Balanced.append {xs ys : List Char} (hx : Balanced xs) (hy : Balanced ys) :
    Balanced (xs ++ ys) := by
  induction hx with
  | nil => exact hy
  | char hopen hclose _ ih => exact .char hopen hclose ih
  | nested hxs _ _ ih =>
    rw [List.cons_append, List.append_assoc, List.cons_append]
    exact .nested hxs ih

theorem Gap.append {xs ys : List Char} (hx : Gap xs) (hy : Gap ys) : Gap (xs ++ ys) := by
  induction hx with
  | nil => exact hy
  | blank hblank _ ih => exact .blank hblank ih
  | comment hxs _ ih =>
    rw [List.cons_append, List.append_assoc, List.cons_append]
    exact .comment hxs ih

/-! ### Lexemes -/

/-- The next character, if there is one, is none of these. -/
def NotFollowed (p : Char → Prop) : List Char → Prop
  | [] => True
  | c :: _ => ¬ p c

theorem NotFollowed.imp {p q : Char → Prop} {rest : List Char} (h : NotFollowed p rest)
    (hpq : ∀ c, q c → p c) : NotFollowed q rest := by
  cases rest with
  | nil => trivial
  | cons c cs => exact fun hq => h (hpq c hq)

/-- How a token of a kind and a text is written, and that what follows does not continue it. -/
inductive Lexeme : Kind → String → (written rest : List Char) → Prop
  | word {cs rest} : cs ≠ [] → (∀ c ∈ cs, Text.isLetter c) → NotFollowed (Text.isLetter ·) rest →
      Lexeme ((Kind.reserved? (String.ofList cs)).getD .word) (String.ofList cs) cs rest
  | integer {ds rest} : ds ≠ [] → (∀ d ∈ ds, Text.isDecimalDigit d) →
      NotFollowed (fun c => Text.isDecimalDigit c ∨ c = '.') rest →
      Lexeme .number (String.ofList ds) ds rest
  | decimal {ds es rest} : ds ≠ [] → (∀ d ∈ ds, Text.isDecimalDigit d) →
      (∀ e ∈ es, Text.isDecimalDigit e) → NotFollowed (Text.isDecimalDigit ·) rest →
      Lexeme .number (String.ofList (ds ++ '.' :: es)) (ds ++ '.' :: es) rest
  | single {c kind rest} : Kind.single? c = some kind →
      NotFollowed (fun d => (Kind.pair? c d).isSome) rest → Lexeme kind c.toString [c] rest
  | pair {c d kind rest} : Kind.pair? c d = some kind → Lexeme kind (String.ofList [c, d]) [c, d] rest
  | text {cs rest} : '"' ∉ cs → Lexeme .text (String.ofList cs) ('"' :: (cs ++ ['"'])) rest
  | character {c rest} : Lexeme .character c.toString ['\'', c, '\''] rest
  | newline {rest} : Lexeme .newline "" ['\n'] rest

/-- The characters that a token stands for. -/
def Token.written (t : Token) : List Char :=
  match t.kind with
  | .text => '"' :: (t.text.toList ++ ['"'])
  | .character => '\'' :: (t.text.toList ++ ['\''])
  | .newline => ['\n']
  | _ => t.text.toList

/-- A token that stands for characters of the source. -/
def Token.isLexical (t : Token) : Bool := t.kind ≠ .indent ∧ t.kind ≠ .dedent

/-! ### Cuts -/

/-- The beginning `done` of a source text is a sequence of lexemes with gaps before them, and these
are its tokens: each spans its lexeme, from the first character to the last. -/
inductive Cut (file : String) (source : List Char) : (done : List Char) → List Token → Prop
  | nil : Cut file source [] []
  | lexeme {done ts gap kind text written rest} : Cut file source done ts → Gap gap →
      Lexeme kind text written rest → source = done ++ gap ++ written ++ rest →
      Cut file source (done ++ gap ++ written) (ts ++
        [⟨kind, ⟨placeAt file (done ++ gap), placeAt file (done ++ gap ++ written.dropLast)⟩, text⟩])

theorem Lexeme.ne_nil {kind : Kind} {text : String} {written rest : List Char}
    (h : Lexeme kind text written rest) : written ≠ [] := by
  cases h with
  | word hne _ _ | integer hne _ _ => exact hne
  | decimal | single | pair | text | character | newline => simp

/-- No reserved word has the kind of a quoted text, a quoted character or a line end. -/
theorem reserved_kinds (s : String) :
    (Kind.reserved? s).getD .word ∉ [Kind.text, .character, .newline, .indent, .dedent] := by
  unfold Kind.reserved?
  split <;> decide

theorem single_kinds {c : Char} {kind : Kind} (h : Kind.single? c = some kind) :
    kind ∉ [Kind.text, .character, .newline, .indent, .dedent] := by
  unfold Kind.single? at h
  split at h <;> cases h <;> decide

theorem pair_kinds {c d : Char} {kind : Kind} (h : Kind.pair? c d = some kind) :
    kind ∉ [Kind.text, .character, .newline, .indent, .dedent] := by
  unfold Kind.pair? at h
  split at h <;> cases h <;> decide

theorem written_of_kind {t : Token} (h : t.kind ∉ [Kind.text, .character, .newline, .indent, .dedent]) :
    t.written = t.text.toList := by
  unfold Token.written
  split <;> simp_all

/-- A token's characters are its lexeme. -/
theorem Lexeme.written_eq {kind : Kind} {text : String} {written rest : List Char} (span : Span)
    (h : Lexeme kind text written rest) : (⟨kind, span, text⟩ : Token).written = written := by
  cases h with
  | word =>
    rw [written_of_kind (reserved_kinds _)]
    simp
  | single hk =>
    rw [written_of_kind (single_kinds hk)]
    simp
  | pair hk =>
    rw [written_of_kind (pair_kinds hk)]
    simp
  | integer | decimal | text | character | newline => simp [Token.written]

theorem isLexical_of_kind {t : Token} (h : t.kind ∉ [Kind.text, .character, .newline, .indent, .dedent]) :
    t.isLexical = true := by
  simp only [List.mem_cons, not_or] at h
  simp [Token.isLexical, h]

theorem Lexeme.isLexical {kind : Kind} {text : String} {written rest : List Char} (span : Span)
    (h : Lexeme kind text written rest) : (⟨kind, span, text⟩ : Token).isLexical = true := by
  cases h with
  | word => exact isLexical_of_kind (reserved_kinds _)
  | single hk => exact isLexical_of_kind (single_kinds hk)
  | pair hk => exact isLexical_of_kind (pair_kinds hk)
  | integer | decimal | text | character | newline => rfl

/-! ### Slices -/

section Slices
variable {file : String} {span : Span}

theorem sliceAfter_append (before xs ys : List Char) :
    sliceAfter file span before (xs ++ ys) =
      sliceAfter file span before xs ++ sliceAfter file span (before ++ xs) ys := by
  induction xs generalizing before with
  | nil => simp [sliceAfter]
  | cons x xs ih =>
    simp only [List.cons_append, sliceAfter, ih, List.append_assoc, List.nil_append]
    split <;> rfl

/-- Nothing that stands before a span is in it. -/
theorem sliceAfter_of_before (before xs : List Char) (hstart : span.start = placeAt file (before ++ xs)) :
    sliceAfter file span before xs = [] := by
  induction xs generalizing before with
  | nil => rfl
  | cons x xs ih =>
    have hbefore : (placeAt file before).Before span.start := by
      rw [hstart]
      exact before_append (List.cons_ne_nil _ _)
    simp only [sliceAfter, hbefore, true_or, if_true]
    exact ih _ (by rw [hstart, List.append_assoc]; rfl)

/-- Nothing that stands after a span is in it. -/
theorem sliceAfter_of_after (before xs : List Char) (hstop : span.stop.Before (placeAt file before)) :
    sliceAfter file span before xs = [] := by
  induction xs generalizing before with
  | nil => rfl
  | cons x xs ih =>
    simp only [sliceAfter, hstop, or_true, if_true]
    exact ih _ (hstop.trans (before_snoc x))

/-- Everything from the start of a span to its end is in it. -/
theorem sliceAfter_of_inside (before xs : List Char)
    (hstart : ¬ (placeAt file before).Before span.start)
    (hstop : xs ≠ [] → span.stop = placeAt file (before ++ xs.dropLast)) :
    sliceAfter file span before xs = xs := by
  induction xs generalizing before with
  | nil => rfl
  | cons x xs ih =>
    have hx := hstop (List.cons_ne_nil _ _)
    have hafter : ¬ span.stop.Before (placeAt file before) := by
      rw [hx]
      cases xs with
      | nil => simpa using Position.Before.irrefl _
      | cons y ys => exact (before_append (List.cons_ne_nil _ _)).asymm
    have hnext : ¬ (placeAt file (before ++ [x])).Before span.start :=
      fun h => hstart ((before_snoc x).trans h)
    simp only [sliceAfter, hstart, hafter, or_self, if_false]
    rw [ih _ hnext]
    intro hne
    rw [hx, List.dropLast_cons_of_ne_nil hne, List.append_assoc]
    rfl

/-- The slice from a lexeme's first place to its last is the lexeme. -/
theorem slice_of_lexeme (before written rest : List Char) (hne : written ≠ []) :
    slice file (before ++ written ++ rest)
      ⟨placeAt file before, placeAt file (before ++ written.dropLast)⟩ = written := by
  have hsplit : written = written.dropLast ++ [written.getLast hne] :=
    (List.dropLast_concat_getLast hne).symm
  have hend : (placeAt file (before ++ written.dropLast)).Before (placeAt file (before ++ written)) := by
    conv => rhs; rw [hsplit, ← List.append_assoc]
    exact before_snoc _
  unfold slice
  rw [sliceAfter_append, sliceAfter_append, List.nil_append, sliceAfter_of_before _ _ rfl,
    sliceAfter_of_inside _ _ (Position.Before.irrefl _) (fun _ => rfl), sliceAfter_of_after _ _ hend]
  simp

end Slices

/-! ### What follows from a cut -/

namespace Cut

variable {file : String} {source done : List Char} {ts : List Token}

/-- Between the places of a token stands what it is written as. -/
theorem slice_eq_written (h : Cut file source done ts) :
    ∀ t ∈ ts, slice file source t.span = t.written := by
  induction h with
  | nil => simp
  | lexeme _ _ hlex hsource ih =>
    intro t ht
    rcases List.mem_append.mp ht with ht | ht
    · exact ih t ht
    · rw [List.mem_singleton.mp ht, hlex.written_eq, hsource]
      exact slice_of_lexeme _ _ _ hlex.ne_nil

/-- Every token ends before what comes next. -/
theorem stop_before (h : Cut file source done ts) :
    ∀ t ∈ ts, t.span.stop.Before (placeAt file done) := by
  induction h with
  | nil => simp
  | @lexeme done ts gap kind text written rest _ _ hlex _ ih =>
    have hne := hlex.ne_nil
    intro t ht
    rcases List.mem_append.mp ht with ht | ht
    · have hstep : (placeAt file done).Before (placeAt file (done ++ (gap ++ written))) :=
        before_append (List.append_ne_nil_of_right_ne_nil gap hne)
      rw [← List.append_assoc] at hstep
      exact (ih t ht).trans hstep
    · rw [List.mem_singleton.mp ht]
      have hlast : (placeAt file (done ++ gap ++ written.dropLast)).Before
          (placeAt file (done ++ gap ++ written.dropLast ++ [written.getLast hne])) := before_snoc _
      rw [List.append_assoc _ written.dropLast, List.dropLast_concat_getLast hne] at hlast
      exact hlast

/-- Tokens follow one another without overlap. -/
theorem pairwise (h : Cut file source done ts) :
    ts.Pairwise fun t u => t.span.stop.Before u.span.start := by
  induction h with
  | nil => exact .nil
  | @lexeme done ts gap kind text written rest hcut _ _ _ ih =>
    refine List.pairwise_append.mpr ⟨ih, List.pairwise_singleton .., ?_⟩
    intro t ht u hu
    rw [List.mem_singleton.mp hu]
    have hstop := hcut.stop_before t ht
    cases gap with
    | nil => simpa using hstop
    | cons c cs => exact hstop.trans (before_append (List.cons_ne_nil _ _))

end Cut

end Offside
