import Offside.Proofs.Grammar.Repetition

/-! The reader of expressions reads the grammar of expressions.

Each level of the grammar has the kinds of tokens that would go on with a phrase of it: those of its
own operators and those of all tighter levels. Nested expressions are shorter than what they are
nested in, so that everything here is said of a reader of nested expressions which is complete up to
some length, and the length then grows by induction. -/
namespace Offside.Parser

open Reading Grammar

/-! ### What goes on with an expression -/

def primaryTails : List Kind := [.dot, .leftParen]

def productTails : List Kind := [.times, .divide, .modulo] ++ primaryTails

def sumTails : List Kind := [.plus, .minus] ++ productTails

def comparisonTails : List Kind :=
  [.equal, .notEqual, .less, .greater, .lessEqual, .greaterEqual] ++ sumTails

def conjunctionTails : List Kind := [.and] ++ comparisonTails

def expressionTails : List Kind := .or :: conjunctionTails

theorem productOp?_tails {kind : Kind} (h : kind ∉ [.times, .divide, .modulo]) :
    Grammar.productOp? kind = none := by
  unfold Grammar.productOp?
  split <;> simp_all

theorem sumOp?_tails {kind : Kind} (h : kind ∉ [.plus, .minus]) : Grammar.sumOp? kind = none := by
  unfold Grammar.sumOp?
  split <;> simp_all

theorem compareOp?_tails {kind : Kind}
    (h : kind ∉ [.equal, .notEqual, .less, .greater, .lessEqual, .greaterEqual]) :
    Grammar.compareOp? kind = none := by
  unfold Grammar.compareOp?
  split <;> simp_all

theorem andOp?_tails {kind : Kind} (h : kind ∉ [.and]) : andOp? kind = none := by
  unfold andOp?
  split <;> simp_all

/-! ### The operators that are read -/

theorem map_productOp? : (fun kind => (Parser.productOp? kind).map Operator.arith) = Grammar.productOp? := by
  funext kind
  cases kind <;> rfl

theorem map_sumOp? : (fun kind => (Parser.sumOp? kind).map Operator.arith) = Grammar.sumOp? := by
  funext kind
  cases kind <;> rfl

theorem map_compareOp? (kind : Kind) :
    (Parser.compareOp? kind).map Operator.compare = Grammar.compareOp? kind := by
  cases kind <;> rfl

theorem compareOp?_of_read {kind : Kind} {op : CompareOp} (h : Parser.compareOp? kind = some op) :
    Grammar.compareOp? kind = some (.compare op) := by
  rw [← map_compareOp?, h]
  rfl

theorem andOp?_eq : (fun kind => if kind = Kind.and then some (Operator.logic .and) else none) = andOp? := by
  funext kind
  cases kind <;> rfl

theorem sum_eq (single : Parser Expr) :
    sum single = chain Grammar.sumOp? (chain Grammar.productOp? single) := by
  rw [sum, product, map_sumOp?, map_productOp?]

theorem conjunction_eq (single : Parser Expr) :
    conjunction single = chain andOp? (comparison single) := by
  rw [conjunction, andOp?_eq]

theorem qualifier_iff {name : String} {q : Option String} : Qualifier name q ↔ qualifier name = q := by
  constructor
  · rintro (_ | hne)
    · rfl
    · exact if_neg hne
  · rintro rfl
    by_cases hempty : name = ""
    · rw [hempty]
      exact .absent
    · rw [qualifier, if_neg hempty]
      exact .present hempty

/-! ### How expressions start -/

theorem chain_starts {kinds : List Kind} {op? : Kind → Option Operator} {L : Language Expr}
    (h : Starts kinds L) : Starts kinds (Chain op? L) := by
  intro ts e hc
  induction hc with
  | one hl => exact h _ _ hl
  | more _ _ _ ih =>
    obtain ⟨t, us, rfl, ht⟩ := ih
    exact ⟨t, _, rfl, ht⟩

theorem invocation_starts : Starts [.word] Invocation := by
  rintro _ _ (⟨hn, _⟩ | ⟨ho, _, _, _, _⟩)
  · exact ⟨_, _, rfl, by simp [hn]⟩
  · exact ⟨_, _, rfl, by simp [ho]⟩

/-- The second token of a call tells it from a variable. -/
theorem invocation_second {ts : List Token} {c : Call} (h : Invocation ts c) :
    ∃ t u us, ts = t :: u :: us ∧ t.kind = .word ∧ (u.kind = .dot ∨ u.kind = .leftParen) := by
  cases h with
  | own hname hargs =>
    obtain ⟨ho, _, _⟩ := hargs
    exact ⟨_, _, _, rfl, hname, .inr ho⟩
  | qualified hobject _ hdot _ _ => exact ⟨_, _, _, rfl, hobject, .inl hdot⟩

theorem primary_starts : Starts expressionStarts Primary := by
  intro ts e h
  cases h with
  | truth ht | falsity ht | number ht _ | text ht | character ht _ | parenthesized ht _ _
  | create ht _ _ | «variable» ht => exact ⟨_, _, rfl, by simp [ht, expressionStarts]⟩
  | call h =>
    obtain ⟨t, us, rfl, ht⟩ := invocation_starts _ _ h
    exact ⟨t, us, rfl, by simp_all [expressionStarts]⟩

theorem sum_starts : Starts expressionStarts Summation := chain_starts (chain_starts primary_starts)

theorem comparison_starts : Starts (.not :: expressionStarts) Comparison := by
  intro ts e h
  cases h with
  | not ht _ => exact ⟨_, _, rfl, by simp [ht]⟩
  | sum h =>
    obtain ⟨t, us, rfl, ht⟩ := sum_starts _ _ h
    exact ⟨t, us, rfl, List.mem_cons_of_mem _ ht⟩
  | compare h _ _ =>
    obtain ⟨t, us, rfl, ht⟩ := sum_starts _ _ h
    exact ⟨t, _, rfl, List.mem_cons_of_mem _ ht⟩

theorem expression_starts : Starts (.not :: expressionStarts) Expression := by
  intro ts e h
  cases h with
  | one h => exact chain_starts comparison_starts _ _ h
  | or h _ _ =>
    obtain ⟨t, us, rfl, ht⟩ := chain_starts comparison_starts _ _ h
    exact ⟨t, _, rfl, ht⟩

/-! ### Arguments -/

section Nested
variable {nested : Parser Expr}

theorem argumentsLeft_sound (hnested : Sound nested Expression) (bound : Nat) (s : Reading)
    (es : List Expr) (s' : Reading) (hb : s.Bounded) (hbound : s.cursor.rest.length ≤ bound)
    (h : argumentsLeft nested bound s = .ok es s') :
    ∃ ts closer, Moved s (ts ++ [closer]) s' ∧ Separated .comma Expression ts es ∧
      closer.kind = .rightParen := by
  induction bound generalizing s es with
  | zero =>
    -- Nothing is left here, and an argument takes a token.
    simp only [argumentsLeft, bind_eq_ok] at h
    obtain ⟨e, s₁, h₁, -⟩ := h
    obtain ⟨ts, hm, hl⟩ := hnested s e s₁ hb h₁
    have hr : s.cursor.rest = [] := List.length_eq_zero_iff.mp (Nat.le_zero.mp hbound)
    have hts : ts = [] := (List.append_eq_nil_iff.mp (hm.rest.symm.trans hr)).1
    exact absurd hts (expression_starts.ne_nil hl)
  | succ bound ih =>
    simp only [argumentsLeft, bind_eq_ok] at h
    obtain ⟨e, s₁, h₁, t, s₂, h₂, h⟩ := h
    obtain ⟨ts, hm₁, hl⟩ := hnested s e s₁ hb h₁
    obtain ⟨ht, hm₂⟩ := expectAny_sound h₂
    have hb₁ := hm₁.bounded hb
    split at h
    · next hclose =>
      cases h
      exact ⟨ts, t, hm₁.trans hm₂, .one hl, hclose⟩
    · next hopen =>
      have hcomma : t.kind = .comma := by simpa [hopen] using ht
      simp only [bind_eq_ok] at h
      obtain ⟨es', s₃, h₃, h⟩ := h
      cases h
      have hshort : s₂.cursor.rest.length ≤ bound := by
        rw [hm₁.rest, hm₂.rest] at hbound
        simp only [List.length_append, List.length_singleton] at hbound
        omega
      obtain ⟨us, closer, hm₃, hus, hc⟩ := ih s₂ es' (hm₂.bounded hb₁) hshort h₃
      refine ⟨ts ++ t :: us, closer, ?_, .more hl hcomma hus, hc⟩
      simpa [List.append_assoc] using hm₁.trans (hm₂.cons hm₃)

/-- Arguments after the opening parenthesis. -/
theorem arguments_sound (hnested : Sound nested Expression) {s s' : Reading} {es : List Expr}
    (hb : s.Bounded) (h : arguments nested s = .ok es s') :
    ∃ ts closer, Moved s (ts ++ [closer]) s' ∧ Optional (Separated .comma Expression) ts es ∧
      closer.kind = .rightParen := by
  simp only [arguments, bind_eq_ok] at h
  obtain ⟨b, s₁, h₁, h⟩ := h
  rcases accept_cases h₁ with ⟨rfl, closer, hc, hm⟩ | ⟨rfl, rfl, _⟩
  · cases h
    exact ⟨[], closer, hm, .absent, hc⟩
  · obtain ⟨ts, closer, hm, hts, hc⟩ := argumentsLeft_sound hnested _ _ es s' hb hb h
    exact ⟨ts, closer, hm, .present hts, hc⟩

variable {n : Nat}

theorem argumentsLeft_complete (hnested : Complete n expressionTails nested Expression)
    {closer : Token} (hc : closer.kind = .rightParen) (k : List Token) {ts : List Token}
    {es : List Expr} (h : Separated .comma Expression ts es) (bound : Nat) (s : Reading)
    (hb : s.Bounded) (hr : s.cursor.rest = ts ++ closer :: k) (hlen : ts.length ≤ n)
    (hbound : s.cursor.rest.length ≤ bound) :
    ∃ s', argumentsLeft nested bound s = .ok es s' ∧ Moved s (ts ++ [closer]) s' := by
  induction h generalizing bound s with
  | @one ts e hl =>
    obtain ⟨s₁, h₁, hm₁⟩ := hnested s ts _ e hb hr hlen (by rw [notNext_cons, hc]; decide) hl
    obtain ⟨s₂, h₂, hm₂⟩ := expectAny_of_next [.comma, .rightParen] (hm₁.rest_eq hr)
      (by simp [hc])
    refine ⟨s₂, ?_, hm₁.trans hm₂⟩
    cases bound with
    | zero => simp [hr] at hbound
    | succ bound =>
      rw [argumentsLeft, bind_of_ok h₁, bind_of_ok h₂, if_pos hc]
      rfl
  | @more ts e t us es hl ht _ ih =>
    rw [List.append_assoc, List.cons_append] at hr
    rw [List.length_append, List.length_cons] at hlen
    obtain ⟨s₁, h₁, hm₁⟩ := hnested s ts _ e hb hr (by omega) (by rw [notNext_cons, ht]; decide) hl
    have hb₁ := hm₁.bounded hb
    have hr₁ := hm₁.rest_eq hr
    obtain ⟨s₂, h₂, hm₂⟩ := expectAny_of_next [.comma, .rightParen] hr₁ (by simp [ht])
    have hr₂ := hm₂.rest_of_next hr₁
    cases bound with
    | zero => simp [hr] at hbound
    | succ bound =>
      have hshort : s₂.cursor.rest.length ≤ bound := by
        rw [hr₂]
        rw [hr] at hbound
        simp only [List.length_append, List.length_cons] at hbound ⊢
        omega
      obtain ⟨s₃, h₃, hm₃⟩ := ih bound s₂ (hm₂.bounded hb₁) hr₂ (by omega) hshort
      refine ⟨s₃, ?_, ?_⟩
      · rw [argumentsLeft, bind_of_ok h₁, bind_of_ok h₂, if_neg (by simp [ht]), bind_of_ok h₃]
        rfl
      · simpa [List.append_assoc] using hm₁.trans (hm₂.cons hm₃)

theorem arguments_complete (hnested : Complete n expressionTails nested Expression)
    {closer : Token} (hc : closer.kind = .rightParen) {k ts : List Token} {es : List Expr}
    (h : Optional (Separated .comma Expression) ts es) {s : Reading} (hb : s.Bounded)
    (hr : s.cursor.rest = ts ++ closer :: k) (hlen : ts.length ≤ n) :
    ∃ s', arguments nested s = .ok es s' ∧ Moved s (ts ++ [closer]) s' := by
  cases h with
  | absent =>
    obtain ⟨s₁, h₁, hm₁⟩ := accept_of_next hr hc
    refine ⟨s₁, ?_, hm₁⟩
    rw [arguments, bind_of_ok h₁]
    rfl
  | present h =>
    have hnext : NotNext [.rightParen] s.cursor.rest := by
      rw [hr]
      cases h with
      | one hl => exact expression_starts.notNext hl _ (by decide)
      | more hl _ _ =>
        rw [List.append_assoc]
        exact expression_starts.notNext hl _ (by decide)
    obtain ⟨s₁, h₁, hm₁⟩ := argumentsLeft_complete hnested hc k h s.count s hb hr hlen hb
    refine ⟨s₁, ?_, hm₁⟩
    rw [arguments, bind_of_ok (accept_of_notNext hnext)]
    simp only [Bool.false_eq_true, if_false]
    exact withBound_of_ok h₁

/-! ### Calls -/

theorem call_sound (hnested : Sound nested Expression) : Sound (call nested) Invocation := by
  intro s c s' hb h
  simp only [call, bind_eq_ok] at h
  obtain ⟨name, s₁, h₁, b, s₂, h₂, h⟩ := h
  obtain ⟨hname, hm₁⟩ := expect_sound h₁
  have hb₁ := hm₁.bounded hb
  rcases accept_cases h₂ with ⟨rfl, dot, hdot, hm₂⟩ | ⟨rfl, rfl, _⟩
  · simp only [if_true, bind_eq_ok] at h
    obtain ⟨method, s₃, h₃, opener, s₄, h₄, es, s₅, h₅, h⟩ := h
    cases h
    obtain ⟨hmethod, hm₃⟩ := expect_sound h₃
    obtain ⟨ho, hm₄⟩ := expect_sound h₄
    obtain ⟨ts, closer, hm₅, hts, hc⟩ := arguments_sound hnested
      (hm₄.bounded (hm₃.bounded (hm₂.bounded hb₁))) h₅
    exact ⟨_, hm₁.cons (hm₂.cons (hm₃.cons (hm₄.cons hm₅))), .qualified hname (qualifier_iff.mpr rfl)
      hdot hmethod (.mk ho hts hc)⟩
  · simp only [Bool.false_eq_true, if_false, bind_eq_ok] at h
    obtain ⟨opener, s₃, h₃, es, s₄, h₄, h⟩ := h
    cases h
    obtain ⟨ho, hm₃⟩ := expect_sound h₃
    obtain ⟨ts, closer, hm₄, hts, hc⟩ := arguments_sound hnested (hm₃.bounded hb₁) h₄
    exact ⟨_, hm₁.cons (hm₃.cons hm₄), .own hname (.mk ho hts hc)⟩

theorem call_complete (hnested : Complete n expressionTails nested Expression) :
    Complete (n + 1) [] (call nested) Invocation := by
  intro s ts k c hb hr hlen _ h
  cases h with
  | own hname hargs =>
    obtain ⟨ho, hts, hc⟩ := hargs
    simp only [List.cons_append, List.append_assoc, List.nil_append] at hr
    simp only [List.length_cons, List.length_append] at hlen
    obtain ⟨s₁, h₁, hm₁⟩ := expect_of_next hr hname
    have hr₁ := hm₁.rest_of_next hr
    have hdot : accept .dot s₁ = .ok false s₁ := by
      refine accept_of_notNext ?_
      rw [hr₁, notNext_cons, ho]
      decide
    obtain ⟨s₂, h₂, hm₂⟩ := expect_of_next hr₁ ho
    obtain ⟨s₃, h₃, hm₃⟩ := arguments_complete hnested hc hts
      (hm₂.bounded (hm₁.bounded hb)) (hm₂.rest_of_next hr₁) (by omega)
    refine ⟨s₃, ?_, hm₁.cons (hm₂.cons hm₃)⟩
    rw [call, bind_of_ok h₁, bind_of_ok hdot]
    simp only [Bool.false_eq_true, if_false]
    rw [bind_of_ok h₂, bind_of_ok h₃]
    rfl
  | qualified hobject hq hdot hname hargs =>
    obtain ⟨ho, hts, hc⟩ := hargs
    obtain rfl := qualifier_iff.mp hq
    simp only [List.cons_append, List.append_assoc, List.nil_append] at hr
    simp only [List.length_cons, List.length_append] at hlen
    obtain ⟨s₁, h₁, hm₁⟩ := expect_of_next hr hobject
    have hr₁ := hm₁.rest_of_next hr
    obtain ⟨s₂, h₂, hm₂⟩ := accept_of_next hr₁ hdot
    have hr₂ := hm₂.rest_of_next hr₁
    obtain ⟨s₃, h₃, hm₃⟩ := expect_of_next hr₂ hname
    have hr₃ := hm₃.rest_of_next hr₂
    obtain ⟨s₄, h₄, hm₄⟩ := expect_of_next hr₃ ho
    obtain ⟨s₅, h₅, hm₅⟩ := arguments_complete hnested hc hts
      (hm₄.bounded (hm₃.bounded (hm₂.bounded (hm₁.bounded hb)))) (hm₄.rest_of_next hr₃) (by omega)
    refine ⟨s₅, ?_, hm₁.cons (hm₂.cons (hm₃.cons (hm₄.cons hm₅)))⟩
    rw [call, bind_of_ok h₁, bind_of_ok h₂]
    simp only [if_true]
    rw [bind_of_ok h₃, bind_of_ok h₄, bind_of_ok h₅]
    rfl

/-! ### What stands by itself -/

theorem numberOf_eq_ok {t : Token} {s s' : Reading} {e : Expr} :
    numberOf t s = .ok e s' ↔ ∃ value, Number.read? t.text = some value ∧ .number value = e ∧ s = s' := by
  unfold numberOf
  cases Number.read? t.text with
  | none => simp
  | some value => simp

theorem characterOf_eq_ok {t : Token} {s s' : Reading} {e : Expr} :
    characterOf t s = .ok e s' ↔ ∃ c cs, t.text.toList = c :: cs ∧ .character c = e ∧ s = s' := by
  unfold characterOf
  cases t.text.toList with
  | nil => simp
  | cons c cs => simp

/-- A token that stands by itself is taken, and `p` says what it stands for. -/
theorem alone_sound {kind : Kind} {p : Parser Expr} {s s' : Reading} {t : Token} {k : List Token} {e : Expr}
    (hr : s.cursor.rest = t :: k)
    (hp : ∀ {s₁ : Reading}, t.kind = kind → p s₁ = .ok e s' → s₁ = s' ∧ Primary [t] e)
    (h : (expect kind >>= fun _ => p) s = .ok e s') : ∃ ts, Moved s ts s' ∧ Primary ts e := by
  obtain ⟨u, s₁, h₁, h⟩ := bind_eq_ok.mp h
  obtain ⟨rfl, hu, hm⟩ := expect_next hr h₁
  obtain ⟨rfl, he⟩ := hp hu h
  exact ⟨_, hm, he⟩

theorem alone_complete {kind : Kind} {p : Parser Expr} {s : Reading} {t : Token} {k : List Token} {e : Expr}
    (hr : s.cursor.rest = t :: k) (ht : t.kind = kind) (hp : ∀ s₁ : Reading, p s₁ = .ok e s₁) :
    ∃ s', (expect kind >>= fun _ => p) s = .ok e s' ∧ Moved s [t] s' := by
  obtain ⟨s₁, h₁, hm₁⟩ := expect_of_next hr ht
  exact ⟨s₁, (bind_of_ok h₁).trans (hp s₁), hm₁⟩

theorem pure_eq_ok {e e' : Expr} {s s' : Reading} :
    (pure e : Parser Expr) s = .ok e' s' ↔ e = e' ∧ s = s' := by
  constructor
  · intro h
    cases h
    exact ⟨rfl, rfl⟩
  · rintro ⟨rfl, rfl⟩
    rfl

theorem primary_sound (hnested : Sound nested Expression) : Sound (primary nested) Primary := by
  intro s e s' hb h
  rw [primary, bind_of_ok (cursor_run s)] at h
  cases hr : s.cursor.rest with
  | nil =>
    have hpeek : s.cursor.peek? 0 = none := by
      show s.cursor.rest[0]? = none
      rw [hr]
      rfl
    simp [hpeek, bind_eq_ok] at h
  | cons t k =>
    simp only [peek?_zero hr] at h
    cases hkind : t.kind with
    | trueWord =>
      simp only [hkind] at h
      refine alone_sound hr (fun hu he => ?_) h
      obtain ⟨rfl, rfl⟩ := pure_eq_ok.mp he
      exact ⟨rfl, .truth hu⟩
    | falseWord =>
      simp only [hkind] at h
      refine alone_sound hr (fun hu he => ?_) h
      obtain ⟨rfl, rfl⟩ := pure_eq_ok.mp he
      exact ⟨rfl, .falsity hu⟩
    | number =>
      simp only [hkind] at h
      refine alone_sound hr (fun hu he => ?_) h
      obtain ⟨value, hvalue, rfl, rfl⟩ := numberOf_eq_ok.mp he
      exact ⟨rfl, .number hu hvalue⟩
    | text =>
      simp only [hkind] at h
      refine alone_sound hr (fun hu he => ?_) h
      obtain ⟨rfl, rfl⟩ := pure_eq_ok.mp he
      exact ⟨rfl, .text hu⟩
    | character =>
      simp only [hkind] at h
      refine alone_sound hr (fun hu he => ?_) h
      obtain ⟨c, cs, hcs, rfl, rfl⟩ := characterOf_eq_ok.mp he
      exact ⟨rfl, .character hu hcs⟩
    | leftParen =>
      simp only [hkind, bind_eq_ok] at h
      obtain ⟨u, s₁, h₁, inner, s₂, h₂, v, s₃, h₃, h⟩ := h
      obtain ⟨rfl, hu, hm₁⟩ := expect_next hr h₁
      obtain ⟨ts, hm₂, hts⟩ := hnested s₁ inner s₂ (hm₁.bounded hb) h₂
      obtain ⟨hv, hm₃⟩ := expect_sound h₃
      cases h
      exact ⟨_, hm₁.cons (hm₂.trans hm₃), .parenthesized hu hts hv⟩
    | newWord =>
      simp only [hkind, bind_eq_ok] at h
      obtain ⟨u, s₁, h₁, cls, s₂, h₂, opener, s₃, h₃, es, s₄, h₄, h⟩ := h
      obtain ⟨rfl, hu, hm₁⟩ := expect_next hr h₁
      obtain ⟨hcls, hm₂⟩ := expect_sound h₂
      obtain ⟨ho, hm₃⟩ := expect_sound h₃
      obtain ⟨ts, closer, hm₄, hts, hc⟩ := arguments_sound hnested
        (hm₃.bounded (hm₂.bounded (hm₁.bounded hb))) h₄
      cases h
      exact ⟨_, hm₁.cons (hm₂.cons (hm₃.cons hm₄)), .create hu hcls (.mk ho hts hc)⟩
    | word =>
      simp only [hkind] at h
      rw [bind_of_ok (nextIs_run ..)] at h
      split at h
      · simp only [bind_eq_ok] at h
        obtain ⟨c, s₁, h₁, h⟩ := h
        obtain ⟨ts, hm, hc⟩ := call_sound hnested s c s₁ hb h₁
        cases h
        exact ⟨ts, hm, .call hc⟩
      · refine alone_sound hr (fun hu he => ?_) h
        obtain ⟨rfl, rfl⟩ := pure_eq_ok.mp he
        exact ⟨rfl, .variable hu⟩
    | _ =>
      simp only [hkind] at h
      exact absurd h (complain_run_ne_ok _ _ _ _)

theorem primary_complete (hnested : Complete n expressionTails nested Expression) :
    Complete (n + 1) primaryTails (primary nested) Primary := by
  intro s ts k e hb hr hlen hk h
  rw [primary, bind_of_ok (cursor_run s)]
  cases h with
  | truth ht | falsity ht | text ht =>
    simp only [peek?_zero hr, ht]
    exact alone_complete hr ht fun _ => rfl
  | number ht hvalue =>
    simp only [peek?_zero hr, ht]
    exact alone_complete hr ht fun _ => numberOf_eq_ok.mpr ⟨_, hvalue, rfl, rfl⟩
  | character ht hcs =>
    simp only [peek?_zero hr, ht]
    exact alone_complete hr ht fun _ => characterOf_eq_ok.mpr ⟨_, _, hcs, rfl, rfl⟩
  | parenthesized ho hts hc =>
    simp only [List.cons_append, List.append_assoc, List.nil_append] at hr
    simp only [List.length_cons, List.length_append] at hlen
    obtain ⟨s₁, h₁, hm₁⟩ := expect_of_next hr ho
    have hr₁ := hm₁.rest_of_next hr
    obtain ⟨s₂, h₂, hm₂⟩ := hnested s₁ _ _ _ (hm₁.bounded hb) hr₁ (by omega)
      (by rw [notNext_cons, hc]; decide) hts
    obtain ⟨s₃, h₃, hm₃⟩ := expect_of_next (hm₂.rest_eq hr₁) hc
    refine ⟨s₃, ?_, hm₁.cons (hm₂.trans hm₃)⟩
    simp only [peek?_zero hr, ho]
    rw [bind_of_ok h₁, bind_of_ok h₂, bind_of_ok h₃]
    rfl
  | create hfirst hname hargs =>
    obtain ⟨ho, hts, hc⟩ := hargs
    simp only [List.cons_append, List.append_assoc, List.nil_append] at hr
    simp only [List.length_cons, List.length_append] at hlen
    obtain ⟨s₁, h₁, hm₁⟩ := expect_of_next hr hfirst
    have hr₁ := hm₁.rest_of_next hr
    obtain ⟨s₂, h₂, hm₂⟩ := expect_of_next hr₁ hname
    have hr₂ := hm₂.rest_of_next hr₁
    obtain ⟨s₃, h₃, hm₃⟩ := expect_of_next hr₂ ho
    obtain ⟨s₄, h₄, hm₄⟩ := arguments_complete hnested hc hts
      (hm₃.bounded (hm₂.bounded (hm₁.bounded hb))) (hm₃.rest_of_next hr₂) (by omega)
    refine ⟨s₄, ?_, hm₁.cons (hm₂.cons (hm₃.cons hm₄))⟩
    simp only [peek?_zero hr, hfirst]
    rw [bind_of_ok h₁, bind_of_ok h₂, bind_of_ok h₃, bind_of_ok h₄]
    rfl
  | call hc =>
    obtain ⟨s₁, h₁, hm₁⟩ := call_complete hnested s ts k _ hb hr hlen (by simp [NotNext]) hc
    obtain ⟨t, u, us, rfl, ht, hu⟩ := invocation_second hc
    refine ⟨s₁, ?_, hm₁⟩
    have hnext : nextIs 1 [.dot, .leftParen] s = .ok true s := by
      rw [nextIs_run]
      simpa [Cursor.peekIs, Cursor.peek?, hr] using hu
    simp only [peek?_zero hr, ht]
    rw [bind_of_ok hnext]
    simp only [if_true]
    rw [bind_of_ok h₁]
    rfl
  | «variable» ht =>
    have hnext : nextIs 1 [.dot, .leftParen] s = .ok false s := by
      rw [nextIs_run]
      cases k with
      | nil => simp [Cursor.peekIs, Cursor.peek?, hr]
      | cons u k => simpa [Cursor.peekIs, Cursor.peek?, hr, primaryTails] using hk
    simp only [peek?_zero hr, ht]
    rw [bind_of_ok hnext]
    simp only [Bool.false_eq_true, if_false]
    exact alone_complete hr ht fun _ => rfl

end Nested

/-! ### Comparisons -/

/-- A sum or two that are compared: a comparison without the negations in front of it. -/
inductive Compared : Language Expr
  | sum {ts e} : Summation ts e → Compared ts e
  | compare {ts l t op us r} : Summation ts l → Grammar.compareOp? t.kind = some op → Summation us r →
      Compared (ts ++ t :: us) (.binary op l r)

theorem compared_starts : Starts expressionStarts Compared := by
  intro ts e h
  cases h with
  | sum h => exact sum_starts _ _ h
  | compare h _ _ =>
    obtain ⟨t, us, rfl, ht⟩ := sum_starts _ _ h
    exact ⟨t, _, rfl, ht⟩

theorem comparison_of_negations {ns ts : List Token} {e : Expr} (hn : ∀ t ∈ ns, t.kind = .not)
    (h : Comparison ts e) : Comparison (ns ++ ts) (Nat.repeat Expr.not ns.length e) := by
  induction ns with
  | nil => exact h
  | cons n ns ih =>
    exact .not (hn n (List.mem_cons_self ..)) (ih fun t ht => hn t (List.mem_cons_of_mem _ ht))

theorem comparison_split {ts : List Token} {e : Expr} (h : Comparison ts e) :
    ∃ ns us e', ts = ns ++ us ∧ (∀ t ∈ ns, t.kind = .not) ∧ Compared us e' ∧
      e = Nat.repeat Expr.not ns.length e' := by
  induction hlen : ts.length generalizing ts e with
  | zero =>
    rw [List.length_eq_zero_iff] at hlen
    exact absurd hlen (comparison_starts.ne_nil h)
  | succ n ih =>
    cases h with
    | @not t ts e ht h =>
      obtain ⟨ns, us, e', rfl, hn, hc, rfl⟩ := ih h (Nat.succ.inj hlen)
      refine ⟨t :: ns, us, e', rfl, ?_, hc, rfl⟩
      intro u hu
      rcases List.mem_cons.mp hu with rfl | hu
      · exact ht
      · exact hn u hu
    | sum h => exact ⟨[], _, _, rfl, by simp, .sum h, rfl⟩
    | compare hl hop hr => exact ⟨[], _, _, rfl, by simp, .compare hl hop hr, rfl⟩

section Levels
variable {single : Parser Expr} {n : Nat}

theorem sum_sound (h : Sound single Primary) : Sound (sum single) Summation := by
  rw [sum_eq]
  exact chain_sound (chain_sound h)

theorem sum_complete (h : Complete n primaryTails single Primary) :
    Complete n sumTails (sum single) Summation := by
  have hproduct : Complete n productTails (chain Grammar.productOp? single) Product :=
    chain_complete h (fun _ => productOp?_tails) (by decide)
  rw [sum_eq]
  exact chain_complete hproduct (fun _ => sumOp?_tails) (by decide)

theorem comparison_sound (h : Sound single Primary) : Sound (comparison single) Comparison := by
  intro s e s' hb hrun
  simp only [comparison, bind_eq_ok] at hrun
  obtain ⟨m, s₁, h₁, l, s₂, h₂, r, s₃, h₃, hrun⟩ := hrun
  obtain ⟨_, h₁', hm₁⟩ := countOf_run .not s.count s hb
  rw [withBound_of_ok h₁'] at h₁
  cases h₁
  have hn : ∀ t ∈ s.cursor.rest.takeWhile (·.kind = .not), t.kind = .not := by
    intro t ht
    simpa using List.all_eq_true.mp List.all_takeWhile t ht
  have hb₁ := hm₁.bounded hb
  obtain ⟨ts, hm₂, hl⟩ := sum_sound h s₁ l s₂ hb₁ h₂
  rcases operator?_cases h₃ with ⟨rfl, rfl⟩ | ⟨t, op, rfl, hop, hm₃⟩
  · cases hrun
    exact ⟨_, hm₁.trans hm₂, comparison_of_negations hn (.sum hl)⟩
  · simp only [bind_eq_ok] at hrun
    obtain ⟨r, s₄, h₄, _, _, h₅, hrun⟩ := hrun
    cases h₅
    cases hrun
    obtain ⟨us, hm₄, hr⟩ := sum_sound h s₃ r _ (hm₃.bounded (hm₂.bounded hb₁)) h₄
    exact ⟨_, hm₁.trans (hm₂.trans (hm₃.cons hm₄)),
      comparison_of_negations hn (.compare hl (compareOp?_of_read hop) hr)⟩

theorem comparison_complete (h : Complete n primaryTails single Primary) :
    Complete n comparisonTails (comparison single) Comparison := by
  intro s ts k e hb hr hlen hk hwhole
  obtain ⟨ns, us, e, rfl, hn, hc, rfl⟩ := comparison_split hwhole
  rw [List.append_assoc] at hr
  rw [List.length_append] at hlen
  -- The negations are all that the reader takes for negations.
  have hns : s.cursor.rest.takeWhile (·.kind = .not) = ns := by
    rw [hr, List.takeWhile_append_of_pos (by simpa using hn)]
    obtain ⟨t, vs, rfl, ht⟩ := compared_starts _ _ hc
    have hnot : t.kind ≠ .not := by
      intro heq
      rw [heq] at ht
      exact absurd ht (by decide)
    simp [hnot]
  obtain ⟨s₁, h₁, hm₁⟩ := countOf_run .not s.count s hb
  rw [hns] at h₁ hm₁
  have hr₁ := hm₁.rest_eq hr
  have hb₁ := hm₁.bounded hb
  rw [comparison, bind_of_ok (withBound_of_ok h₁)]
  cases hc with
  | sum hl =>
    obtain ⟨s₂, h₂, hm₂⟩ := sum_complete h s₁ us k e hb₁ hr₁ (by omega) (hk.mono (by decide)) hl
    have hnone : operator? Parser.compareOp? s₂ = .ok none s₂ := by
      refine operator?_of_none fun t ht => ?_
      rw [hm₂.rest_eq hr₁] at ht
      have htail := compareOp?_tails ((hk.mono (by decide)) t ht)
      rwa [← map_compareOp?, Option.map_eq_none_iff] at htail
    refine ⟨s₂, ?_, hm₁.trans hm₂⟩
    rw [bind_of_ok h₂, bind_of_ok hnone]
    rfl
  | @compare ts l t op us r hl hop hright =>
    rw [List.append_assoc, List.cons_append] at hr₁
    rw [List.length_append, List.length_cons] at hlen
    have hnot : t.kind ∉ sumTails := (by decide : ∀ kind ∈ [Kind.equal, .notEqual, .less, .greater,
      .lessEqual, .greaterEqual], kind ∉ sumTails) t.kind (mem_of_op (fun _ => compareOp?_tails) hop)
    obtain ⟨s₂, h₂, hm₂⟩ := sum_complete h s₁ ts _ l hb₁ hr₁ (by omega) (by simpa using hnot) hl
    have hr₂ := hm₂.rest_eq hr₁
    have hb₂ := hm₂.bounded hb₁
    rw [← map_compareOp?] at hop
    obtain ⟨op, hread, rfl⟩ := Option.map_eq_some_iff.mp hop
    obtain ⟨s₃, h₃, hm₃⟩ := operator?_of_next hr₂ hread
    obtain ⟨s₄, h₄, hm₄⟩ := sum_complete h s₃ us k r (hm₃.bounded hb₂) (hm₃.rest_of_next hr₂)
      (by omega) (hk.mono (by decide)) hright
    refine ⟨s₄, ?_, hm₁.trans (hm₂.trans (hm₃.cons hm₄))⟩
    rw [bind_of_ok h₂, bind_of_ok h₃]
    simp only []
    rw [bind_of_ok h₄]
    rfl

/-! ### Disjunctions -/

theorem conjunction_sound (h : Sound single Primary) : Sound (conjunction single) Conjunction := by
  rw [conjunction_eq]
  exact chain_sound (comparison_sound h)

theorem conjunction_complete (h : Complete n primaryTails single Primary) :
    Complete n conjunctionTails (conjunction single) Conjunction := by
  rw [conjunction_eq]
  exact chain_complete (comparison_complete h) (fun _ => andOp?_tails) (by decide)

end Levels

/-- Grouping to the right is what makes a list of operands a disjunction. -/
theorem disjunction_of_separated {ts : List Token} {first : Expr} {es : List Expr}
    (h : Separated .or Conjunction ts (first :: es)) : Disjunction ts (joinOr first es) := by
  induction es generalizing ts first with
  | nil =>
    cases h with
    | one hl => exact .one hl
    | more _ _ h => nomatch h
  | cons second es ih =>
    cases h with
    | more hl ht h => exact .or hl ht (ih h)

theorem separated_of_disjunction {ts : List Token} {e : Expr} (h : Disjunction ts e) :
    ∃ first es, Separated .or Conjunction ts (first :: es) ∧ e = joinOr first es := by
  induction hlen : ts.length using Nat.strongRecOn generalizing ts e with
  | ind n ih =>
    cases h with
    | one hl => exact ⟨_, [], .one hl, rfl⟩
    | @or ts l t us r hl ht h =>
      rw [List.length_append, List.length_cons] at hlen
      obtain ⟨first, es, hsep, rfl⟩ := ih us.length (by omega) h rfl
      exact ⟨l, first :: es, .more hl ht hsep, rfl⟩

section Levels
variable {single : Parser Expr} {n : Nat}

/-- A disjunction is read as its operands are. -/
theorem disjunction_eq_ok {s s' : Reading} {e : Expr} :
    disjunction single s = .ok e s' ↔
      ∃ first es, separated .or (conjunction single) s = .ok (first :: es) s' ∧
        e = joinOr first es := by
  simp only [disjunction, separated, bind_eq_ok]
  constructor
  · rintro ⟨first, s₁, h₁, es, s₂, h₂, h⟩
    cases h
    exact ⟨first, es, ⟨first, s₁, h₁, es, _, h₂, rfl⟩, rfl⟩
  · rintro ⟨first, es, ⟨_, s₁, h₁, _, s₂, h₂, h⟩, rfl⟩
    cases h
    exact ⟨first, s₁, h₁, es, _, h₂, rfl⟩

theorem disjunction_sound (h : Sound single Primary) : Sound (disjunction single) Expression := by
  intro s e s' hb hrun
  obtain ⟨first, es, hsep, rfl⟩ := disjunction_eq_ok.mp hrun
  obtain ⟨ts, hm, hts⟩ := separated_sound (conjunction_sound h) s _ s' hb hsep
  exact ⟨ts, hm, disjunction_of_separated hts⟩

theorem disjunction_complete (h : Complete n primaryTails single Primary) :
    Complete n expressionTails (disjunction single) Expression := by
  intro s ts k e hb hr hlen hk hd
  obtain ⟨first, es, hsep, rfl⟩ := separated_of_disjunction hd
  obtain ⟨s', hrun, hm⟩ := separated_complete (conjunction_complete h) (by decide) s ts k _ hb hr
    hlen hk hsep
  exact ⟨s', disjunction_eq_ok.mpr ⟨first, es, hrun, rfl⟩, hm⟩

end Levels

/-! ### Expressions -/

theorem expressionOf_sound (bound : Nat) : Sound (expressionOf bound) Expression := by
  induction bound with
  | zero =>
    intro s e s' _ h
    simp [expressionOf, bind_eq_ok] at h
  | succ bound ih => exact disjunction_sound (primary_sound ih)

theorem expressionOf_complete (bound : Nat) :
    Complete bound expressionTails (expressionOf bound) Expression := by
  induction bound with
  | zero =>
    intro s ts k e _ _ hlen _ h
    have hts : ts = [] := List.length_eq_zero_iff.mp (Nat.le_zero.mp hlen)
    exact absurd hts (expression_starts.ne_nil h)
  | succ bound ih => exact disjunction_complete (primary_complete ih)

theorem expression_sound : Sound expression Expression :=
  fun s e s' hb h => expressionOf_sound s.count s e s' hb h

/-- No expression is longer than there are tokens. -/
theorem expression_complete (n : Nat) : Complete n expressionTails expression Expression := by
  intro s ts k e hb hr _ hk h
  have hlen : ts.length ≤ s.count := by
    unfold Reading.Bounded at hb
    rw [hr, List.length_append] at hb
    omega
  exact expressionOf_complete s.count s ts k e hb hr hlen hk h

theorem callExpression_sound : Sound callExpression Invocation := call_sound expression_sound

theorem callExpression_complete (n : Nat) : Complete n [] callExpression Invocation := by
  intro s ts k c hb hr hlen hk h
  exact call_complete (expression_complete n) s ts k c hb hr (by omega) hk h

/-! ### An expression is not an equation -/

/-- The tokens do not start with a word and an equals sign. -/
def NotEquation (ts : List Token) : Prop :=
  ∀ t u us, ts = t :: u :: us → t.kind = .word → u.kind ≠ .assign

theorem NotEquation.append {ts us : List Token} {t : Token} (h : NotEquation ts) (hne : ts ≠ [])
    (ht : t.kind ≠ .assign) : NotEquation (ts ++ t :: us) := by
  intro a b vs heq ha
  match ts, hne with
  | [x], _ =>
    obtain ⟨rfl, rfl, rfl⟩ : x = a ∧ t = b ∧ us = vs := by simpa using heq
    exact ht
  | x :: y :: zs, _ =>
    obtain ⟨rfl, rfl, _⟩ : x = a ∧ y = b ∧ zs ++ t :: us = vs := by simpa using heq
    exact h x y zs rfl ha

theorem chain_notEquation {op? : Kind → Option Operator} {L : Language Expr} {kinds : List Kind}
    (hstart : Starts kinds L) (hl : ∀ ts e, L ts e → NotEquation ts) (hop : op? .assign = none)
    {ts : List Token} {e : Expr} (h : Chain op? L ts e) : NotEquation ts := by
  induction h with
  | one h => exact hl _ _ h
  | more hc ht _ ih =>
    refine ih.append ((chain_starts hstart).ne_nil hc) ?_
    intro heq
    simp [heq, hop] at ht

theorem primary_notEquation {ts : List Token} {e : Expr} (h : Primary ts e) : NotEquation ts := by
  intro t u us heq ht
  cases h with
  | truth _ | falsity _ | number _ _ | text _ | character _ _ | «variable» _ => simp at heq
  | parenthesized ho _ _ =>
    obtain ⟨rfl, _⟩ := List.cons.inj heq
    simp [ho] at ht
  | create hfirst _ _ =>
    obtain ⟨rfl, _⟩ := List.cons.inj heq
    simp [hfirst] at ht
  | call hc =>
    obtain ⟨x, y, zs, rfl, _, hy⟩ := invocation_second hc
    obtain ⟨rfl, rfl, rfl⟩ : x = t ∧ y = u ∧ zs = us := by simpa using heq
    rcases hy with hy | hy <;> simp [hy]

theorem sum_notEquation {ts : List Token} {e : Expr} (h : Summation ts e) : NotEquation ts :=
  chain_notEquation (chain_starts primary_starts)
    (fun _ _ => chain_notEquation primary_starts (fun _ _ => primary_notEquation) rfl) rfl h

theorem comparison_notEquation {ts : List Token} {e : Expr} (h : Comparison ts e) :
    NotEquation ts := by
  cases h with
  | not hn _ =>
    intro t u us heq ht
    obtain ⟨rfl, _⟩ := List.cons.inj heq
    simp [hn] at ht
  | sum h => exact sum_notEquation h
  | compare h hop _ =>
    refine (sum_notEquation h).append (sum_starts.ne_nil h) ?_
    intro heq
    simp [heq, Grammar.compareOp?] at hop

theorem expression_notEquation {ts : List Token} {e : Expr} (h : Expression ts e) :
    NotEquation ts := by
  have hc : ∀ {ts e}, Conjunction ts e → NotEquation ts :=
    chain_notEquation comparison_starts (fun _ _ => comparison_notEquation) rfl
  cases h with
  | one h => exact hc h
  | or h ht _ => exact (hc h).append ((chain_starts comparison_starts).ne_nil h) (by simp [ht])

end Offside.Parser
