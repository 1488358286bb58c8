import Offside.Proofs.Grammar.Program

/-! How the tokens of a program are laid out in lines.

`Place.after` follows lines, blank lines and levels through the kinds of tokens. It knows nothing of
the grammar but this: a level opens right after the end of a line, blank lines between them aside,
and an `else` stands right after a closing. Every program runs through it from the start to the end,
so tokens that it stops at are no program, whatever else they are. -/
namespace Offside

/-- Where in its lines a token sequence stands. -/
inductive Place where
  /-- A line may start and no level may open: at the very start, after an opening, and after a blank
  line that follows no other line. -/
  | fresh
  | inLine
  /-- After the end of a line. -/
  | ended
  /-- Right after a closing. -/
  | closed
  deriving DecidableEq, Repr

namespace Place

/-- Where it stands after one more token. -/
def after : Place → Kind → Option Place
  | .inLine, .newline => some .ended
  | .ended, .newline => some .ended
  | _, .newline => some .fresh
  | .ended, .indent => some .fresh
  | _, .indent => none
  | .inLine, .dedent => none
  | _, .dedent => some .closed
  | .closed, .elseWord => some .inLine
  | _, .elseWord => none
  | _, _ => some .inLine

/-- Where it stands after more tokens. -/
def through (p : Place) : List Token → Option Place
  | [] => some p
  | t :: ts => (p.after t.kind).bind fun q => q.through ts

theorem through_append (p : Place) (ts us : List Token) :
    p.through (ts ++ us) = (p.through ts).bind fun q => q.through us := by
  induction ts generalizing p with
  | nil => rfl
  | cons t ts ih =>
    simp only [List.cons_append, through]
    cases p.after t.kind with
    | none => rfl
    | some q => exact ih q

theorem through_trans {p q r : Place} {ts us : List Token} (h : p.through ts = some q)
    (h' : q.through us = some r) : p.through (ts ++ us) = some r := by
  rw [through_append, h]
  exact h'

theorem through_cons {p q r : Place} {t : Token} {ts : List Token} (h : p.after t.kind = some q)
    (h' : q.through ts = some r) : p.through (t :: ts) = some r := by
  rw [through, h]
  exact h'

/-- No level opens after a closing and a line end, and no `else` stands after a line end. -/
theorem through_eq_none (p : Place) (pre post : List Token) {a b c : Token}
    (h : a.kind = .dedent ∧ b.kind = .newline ∧ c.kind = .indent ∨
      b.kind = .newline ∧ c.kind = .elseWord) : p.through (pre ++ a :: b :: c :: post) = none := by
  have hstops : ∀ q : Place, q.through (a :: b :: c :: post) = none := by
    intro q
    simp only [through]
    rcases h with ⟨ha, hb, hc⟩ | ⟨hb, hc⟩
    · -- A line end right after a closing ends no line, so nothing can open after it.
      rw [ha, hb, hc]
      cases q <;> rfl
    · rw [hb, hc]
      cases q.after a.kind with
      | none => rfl
      | some r => cases r <;> rfl
  rw [through_append]
  cases p.through pre with
  | none => rfl
  | some q => exact hstops q

end Place

namespace Grammar

/-! ### Inside a line -/

/-- The kinds that have to do with lines and levels. -/
def layoutKinds : List Kind := [.newline, .indent, .dedent, .elseWord]

/-- Tokens inside a line. -/
def Plain (ts : List Token) : Prop := ∀ t ∈ ts, t.kind ∉ layoutKinds

@[simp] theorem plain_nil : Plain [] := nofun

@[simp] theorem plain_cons {t : Token} {ts : List Token} :
    Plain (t :: ts) ↔ t.kind ∉ layoutKinds ∧ Plain ts := List.forall_mem_cons

@[simp] theorem plain_append {ts us : List Token} : Plain (ts ++ us) ↔ Plain ts ∧ Plain us :=
  List.forall_mem_append

theorem after_plain {kind : Kind} (h : kind ∉ layoutKinds) (p : Place) :
    p.after kind = some .inLine := by
  simp only [layoutKinds, List.mem_cons, List.not_mem_nil, or_false, not_or] at h
  obtain ⟨hnewline, hindent, hdedent, helse⟩ := h
  unfold Place.after
  split <;> first | rfl | contradiction

theorem through_inLine {ts : List Token} (h : Plain ts) :
    Place.inLine.through ts = some .inLine := by
  induction ts with
  | nil => rfl
  | cons t ts ih =>
    obtain ⟨ht, hts⟩ := plain_cons.mp h
    exact Place.through_cons (after_plain ht _) (ih hts)

theorem through_plain {t : Token} {ts : List Token} (h : Plain (t :: ts)) (p : Place) :
    p.through (t :: ts) = some .inLine := by
  obtain ⟨ht, hts⟩ := plain_cons.mp h
  exact Place.through_cons (after_plain ht p) (through_inLine hts)

section Expressions
variable {n : Nat}

/-- The phrases of the language with at most so many tokens are inside a line. -/
def PlainUpTo {α : Type} (n : Nat) (L : Language α) : Prop :=
  ∀ ts a, ts.length ≤ n → L ts a → Plain ts

theorem chain_plain {op? : Kind → Option Operator} {L : Language Expr}
    (hop : ∀ kind ∈ layoutKinds, op? kind = none) (h : PlainUpTo n L) :
    PlainUpTo n (Chain op? L) := by
  intro ts e hlen hchain
  induction hchain with
  | one hl => exact h _ _ hlen hl
  | @more ts l t op us r _ hsome hr ih =>
    rw [List.length_append, List.length_cons] at hlen
    refine plain_append.mpr ⟨ih (by omega), plain_cons.mpr ⟨fun hmem => ?_, h _ _ (by omega) hr⟩⟩
    rw [hop _ hmem] at hsome
    cases hsome

theorem separated_plain {α : Type} {separator : Kind} {L : Language α}
    (hsep : separator ∉ layoutKinds)
    (h : PlainUpTo n L) : PlainUpTo n (Separated separator L) := by
  intro ts as hlen hs
  induction hs with
  | one hl => exact h _ _ hlen hl
  | @more ts a t us as hl ht _ ih =>
    rw [List.length_append, List.length_cons] at hlen
    refine plain_append.mpr ⟨h _ _ (by omega) hl, plain_cons.mpr ⟨?_, ih (by omega)⟩⟩
    rwa [ht]

theorem arguments_plain (h : PlainUpTo n Expression) : PlainUpTo (n + 1) Arguments := by
  rintro _ _ hlen @⟨opener, ts, es, closer, hopener, harguments, hcloser⟩
  rw [List.length_cons, List.length_append] at hlen
  have hts : Plain ts := by
    cases harguments with
    | absent => exact plain_nil
    | present hs => exact separated_plain (by decide) h _ _ (by omega) hs
  simp [hopener, hcloser, hts, layoutKinds]

theorem invocation_plain (h : PlainUpTo n Expression) : PlainUpTo (n + 1) Invocation := by
  intro ts c hlen hcall
  cases hcall with
  | own hname hargs =>
    have hts := arguments_plain h _ _ (Nat.le_of_succ_le hlen) hargs
    simp [hname, hts, layoutKinds]
  | qualified hobject _ hdot hname hargs =>
    simp only [List.length_cons] at hlen
    have hts := arguments_plain h _ _ (by omega) hargs
    simp [hobject, hdot, hname, hts, layoutKinds]

theorem primary_plain (h : PlainUpTo n Expression) : PlainUpTo (n + 1) Primary := by
  intro ts e hlen hprimary
  cases hprimary with
  | truth ht | falsity ht | number ht _ | text ht | character ht _ | «variable» ht =>
    simp [ht, layoutKinds]
  | parenthesized hopener hinner hcloser =>
    rw [List.length_cons, List.length_append] at hlen
    have hts := h _ _ (by omega) hinner
    simp [hopener, hcloser, hts, layoutKinds]
  | create hfirst hname hargs =>
    simp only [List.length_cons] at hlen
    have hts := arguments_plain h _ _ (by omega) hargs
    simp [hfirst, hname, hts, layoutKinds]
  | call hcall => exact invocation_plain h _ _ hlen hcall

theorem comparison_plain (h : PlainUpTo n Primary) : PlainUpTo n Comparison := by
  have hsum : PlainUpTo n Summation :=
    chain_plain (by simp [layoutKinds, sumOp?])
      (chain_plain (by simp [layoutKinds, productOp?]) h)
  intro ts e hlen hcomparison
  obtain ⟨ns, us, e', rfl, hns, hcompared, -⟩ := Parser.comparison_split hcomparison
  rw [List.length_append] at hlen
  refine plain_append.mpr ⟨fun t ht => ?_, ?_⟩
  · rw [hns t ht]
    decide
  · cases hcompared with
    | sum hs => exact hsum _ _ (by omega) hs
    | @compare ts l t op us r hl hop hr =>
      rw [List.length_append, List.length_cons] at hlen
      refine plain_append.mpr ⟨hsum _ _ (by omega) hl, plain_cons.mpr ⟨?_, hsum _ _ (by omega) hr⟩⟩
      have hkind : t.kind ∈ _ := Parser.mem_of_op (fun kind => Parser.compareOp?_tails) hop
      revert hkind
      generalize t.kind = kind
      revert kind
      decide

theorem expression_plain (n : Nat) : PlainUpTo n Expression := by
  induction n with
  | zero =>
    intro ts e hlen h
    exact absurd (List.length_eq_zero_iff.mp (Nat.le_zero.mp hlen))
      (Parser.expression_starts.ne_nil h)
  | succ n ih =>
    intro ts e hlen h
    obtain ⟨first, es, hs, -⟩ := Parser.separated_of_disjunction h
    have hconjunction : PlainUpTo (n + 1) Conjunction :=
      chain_plain (by simp [layoutKinds, andOp?]) (comparison_plain (primary_plain ih))
    exact separated_plain (by decide) hconjunction ts _ hlen hs

end Expressions

theorem plain_of_expression {ts : List Token} {e : Expr} (h : Expression ts e) : Plain ts :=
  expression_plain _ ts e (Nat.le_refl _) h

theorem plain_of_invocation {ts : List Token} {c : Call} (h : Invocation ts c) : Plain ts :=
  invocation_plain (expression_plain ts.length) ts c (Nat.le_succ _) h

theorem plain_of_names {ts : List Token} {names : List String}
    (h : Separated .comma Name ts names) :
    Plain ts := by
  refine separated_plain (by decide) (fun ts a _ hname => ?_) ts _ (Nat.le_refl _) h
  cases hname with
  | mk ht => simp [ht, layoutKinds]

theorem plain_of_simple {ts : List Token} {s : Stmt} (h : Simple ts s) : Plain ts := by
  cases h with
  | call hc => exact plain_of_invocation hc
  | receiveMany hnames _ ht hc =>
    simp [plain_of_names hnames, ht, plain_of_invocation hc, layoutKinds]
  | receiveOne htarget ht hc _ => simp [htarget, ht, plain_of_invocation hc, layoutKinds]
  | assign htarget ht he _ => simp [htarget, ht, plain_of_expression he, layoutKinds]

theorem plain_of_target {ts : List Token} {target : Option String} (h : Target ts target) :
    Plain ts := by
  cases h with
  | absent => exact plain_nil
  | present hname ht => simp [hname, ht, layoutKinds]

theorem plain_of_declaration {ts : List Token} {d : Decl} (h : Declaration ts d) : Plain ts := by
  cases h with
  | mk htype hname => simp [htype, hname, layoutKinds]

theorem plain_of_declarations {ts : List Token} {ds : List Decl} (h : Declarations ts ds) :
    Plain ts :=
  separated_plain (by decide) (fun _ _ _ => plain_of_declaration) ts ds (Nat.le_refl _) h

theorem plain_of_parameters {ts : List Token} {ds : List Decl} (h : Parameters ts ds) :
    Plain ts := by
  obtain @⟨opener, ts, ds, closer, hopener, hds, hcloser⟩ := h
  have hts : Plain ts := by
    cases hds with
    | absent => exact plain_nil
    | present hds => exact plain_of_declarations hds
  simp [hopener, hcloser, hts, layoutKinds]

theorem plain_of_header {ts : List Token} {hd : Header} (h : HeaderLine ts hd) : Plain ts := by
  obtain @⟨name, ts, params, us, rets, hname, hparams, hrets⟩ := h
  have hus : Plain us := by
    cases hrets with
    | absent => exact plain_nil
    | present ht hds => simp [ht, plain_of_declarations hds, layoutKinds]
  simp [hname, plain_of_parameters hparams, hus, layoutKinds]

theorem plain_of_modifiers {ts : List Token} (h : Modifiers ts) : Plain ts := by
  intro t ht
  rcases h t ht with hkind | hkind <;> rw [hkind] <;> decide

theorem plain_of_implemented {ts : List Token} {names : List String} (h : Implemented ts names) :
    Plain ts := by
  cases h with
  | absent => exact plain_nil
  | present ht hnames => simp [ht, plain_of_names hnames, layoutKinds]

/-! ### From line to line -/

theorem through_lineEnd {ns : List Token} (h : LineEnd ns) :
    Place.inLine.through ns = some .ended := by
  have hended : ∀ ns : List Token, Blank ns → Place.ended.through ns = some .ended := by
    intro ns hblank
    induction ns with
    | nil => rfl
    | cons n ns ih =>
      have hn : n.kind = .newline := hblank n (.head _)
      exact Place.through_cons (by rw [hn]; rfl) (ih fun t ht => hblank t (.tail _ ht))
  obtain ⟨hne, hblank⟩ := h
  cases ns with
  | nil => exact absurd rfl hne
  | cons n ns =>
    have hn : n.kind = .newline := hblank n (.head _)
    exact Place.through_cons (by rw [hn]; rfl) (hended ns fun t ht => hblank t (.tail _ ht))

/-- A line and its end. -/
theorem through_wholeLine {t : Token} {ts ns : List Token} (h : Plain (t :: ts)) (hn : LineEnd ns)
    (p : Place) : p.through (t :: ts ++ ns) = some .ended :=
  Place.through_trans (through_plain h p) (through_lineEnd hn)

theorem through_blank {ns : List Token} {p : Place} (hp : p ≠ .inLine) (h : Blank ns) :
    ∃ q, q ≠ .inLine ∧ p.through ns = some q := by
  induction ns generalizing p with
  | nil => exact ⟨p, hp, rfl⟩
  | cons n ns ih =>
    have hn : n.kind = .newline := h n (.head _)
    obtain ⟨q, hq, hafter⟩ : ∃ q, q ≠ .inLine ∧ p.after n.kind = some q := by
      rw [hn]
      cases p with
      | inLine => exact absurd rfl hp
      | fresh => exact ⟨.fresh, nofun, rfl⟩
      | ended => exact ⟨.ended, nofun, rfl⟩
      | closed => exact ⟨.fresh, nofun, rfl⟩
    obtain ⟨r, hr, hthrough⟩ := ih hq fun t ht => h t (.tail _ ht)
    exact ⟨r, hr, Place.through_cons hafter hthrough⟩

theorem through_closing {closer : Token} (h : closer.kind = .dedent) {p : Place}
    (hp : p ≠ .inLine) :
    p.through [closer] = some .closed := by
  refine Place.through_cons ?_ rfl
  rw [h]
  cases p with
  | inLine => exact absurd rfl hp
  | fresh | ended | closed => rfl

/-- Phrases of at most so many tokens lead from where a line may start to where one may. -/
def Laid {α : Type} (n : Nat) (L : Language α) : Prop :=
  ∀ ts a (p : Place), ts.length ≤ n → L ts a → p ≠ .inLine → ∃ q, q ≠ .inLine ∧
    p.through ts = some q

section Blocks
variable {α : Type} {n : Nat} {item : Language α}

theorem items_laid (hitem : Laid n item) : Laid n (Items item) := by
  intro ts as p hlen h hp
  induction h generalizing p with
  | nil => exact ⟨p, hp, rfl⟩
  | @cons ns ts a us as hblank hl _ ih =>
    rw [List.length_append, List.length_append] at hlen
    obtain ⟨q, hq, hthrough⟩ := through_blank hp hblank
    obtain ⟨r, hr, hthrough'⟩ := hitem ts a q (by omega) hl hq
    obtain ⟨r', hr', hthrough''⟩ := ih r (by omega) hr
    exact ⟨r', hr', Place.through_trans (Place.through_trans hthrough hthrough') hthrough''⟩

/-- A block stands after the end of a line and ends in a closing. -/
theorem through_block {ts : List Token} {as : List α} (hitem : Laid n item)
    (hlen : ts.length ≤ n + 1)
    (h : Block item ts as) : Place.ended.through ts = some .closed := by
  obtain @⟨opener, ts, as, ns, closer, hopener, hitems, hblank, hcloser⟩ := h
  simp only [List.length_cons, List.length_append] at hlen
  obtain ⟨q, hq, hthrough⟩ := items_laid hitem ts as .fresh (by omega) hitems nofun
  obtain ⟨r, hr, hthrough'⟩ := through_blank hq hblank
  exact Place.through_cons (by rw [hopener]; rfl)
    (Place.through_trans (Place.through_trans hthrough hthrough') (through_closing hcloser hr))

end Blocks

section Lines
variable {α : Type} {kinds : List Kind} {L : Language α} (hstart : Parser.Starts kinds L)
  (hplain : ∀ ts a, L ts a → Plain ts)
include hstart hplain

theorem through_line {ts : List Token} {a : α} (h : Line L ts a) (p : Place) :
    p.through ts = some .ended := by
  obtain @⟨ts, a, ns, hl, hn⟩ := h
  obtain ⟨t, us, rfl, -⟩ := hstart ts a hl
  exact through_wholeLine (hplain _ _ hl) hn p

theorem line_laid (n : Nat) : Laid n (Line L) :=
  fun _ _ p _ h _ => ⟨.ended, nofun, through_line hstart hplain h p⟩

end Lines

theorem through_declaration {ts : List Token} {d : Decl} (h : Line Declaration ts d) (p : Place) :
    p.through ts = some .ended :=
  through_line Parser.declaration_starts (fun _ _ => plain_of_declaration) h p

theorem statement_laid (n : Nat) : Laid n Statement := by
  induction n with
  | zero =>
    intro ts s p hlen h _
    exact absurd (List.length_eq_zero_iff.mp (Nat.le_zero.mp hlen))
      (Parser.statement_starts.ne_nil h)
  | succ n ih =>
    intro ts s p hlen h hp
    cases h with
    | simple hline =>
      exact ⟨.ended, nofun, through_line Parser.simple_starts (fun _ _ => plain_of_simple) hline p⟩
    | @branch first ts e ns us yes hfirst he hn hyes =>
      simp only [List.length_cons, List.length_append] at hlen
      have hhead : Plain (first :: ts) := by simp [hfirst, plain_of_expression he, layoutKinds]
      exact ⟨.closed, nofun,
        Place.through_trans (through_wholeLine hhead hn p) (through_block ih (by omega) hyes)⟩
    | @branchElse first ts e ns us yes other ms vs no hfirst he hn hyes hother hm hno =>
      simp only [List.length_cons, List.length_append] at hlen
      have hhead : Plain (first :: ts) := by simp [hfirst, plain_of_expression he, layoutKinds]
      have hyes :=
        Place.through_trans (through_wholeLine hhead hn p) (through_block ih (by omega) hyes)
      have hno := Place.through_trans (through_lineEnd hm) (through_block ih (by omega) hno)
      refine ⟨.closed, nofun, Place.through_trans hyes (Place.through_cons ?_ hno)⟩
      rw [hother]
      rfl
    | @loop first ws target ts e ns us body hfirst htarget he hn hbody =>
      simp only [List.length_cons, List.length_append] at hlen
      have hhead : Plain (first :: (ws ++ ts)) := by
        simp [hfirst, plain_of_target htarget, plain_of_expression he, layoutKinds]
      have hline := through_wholeLine hhead hn p
      cases hbody with
      | absent => exact ⟨.ended, nofun, Place.through_trans hline rfl⟩
      | present hblock =>
        exact ⟨.closed, nofun, Place.through_trans hline (through_block ih (by omega) hblock)⟩

/-- Phrases of any length. -/
theorem through_statements {ts : List Token} {body : List Stmt} (h : Block Statement ts body) :
    Place.ended.through ts = some .closed :=
  through_block (statement_laid ts.length) (Nat.le_succ _) h

/-! ### Declarations -/

theorem interface_laid (n : Nat) : Laid n Interface := by
  rintro _ _ p _ @⟨first, name, ns, ts, methods, hfirst, hname, hn, hblock⟩ _
  have hhead : Plain [first, name] := by simp [hfirst, hname, layoutKinds]
  have hlines := line_laid Parser.header_starts (fun _ _ => plain_of_header) ts.length
  exact ⟨.closed, nofun,
    Place.through_trans (through_wholeLine hhead hn p)
      (through_block hlines (Nat.le_succ _) hblock)⟩

theorem bodyLine_laid (n : Nat) : Laid n BodyLine := by
  intro ts item p hlen h hp
  cases h with
  | decl hline => exact ⟨.ended, nofun, through_declaration hline p⟩
  | stmt hs => exact statement_laid n ts _ p hlen hs hp

theorem through_body {ts : List Token} {body : List Decl × List Stmt} (h : Body ts body) :
    Place.ended.through ts = some .closed := by
  obtain ⟨hblock⟩ := h
  exact through_block (bodyLine_laid ts.length) (Nat.le_succ _) hblock

theorem fieldBody_laid {opener : Kind} (hopener : opener ∉ layoutKinds) (n : Nat) :
    Laid n (FieldBody opener) := by
  intro ts body p _ h hp
  cases h with
  | absent => exact ⟨p, hp, rfl⟩
  | @present t colon ns ts body ms ht hcolon hn hblock hms =>
    have hhead : Plain [t, colon] := by
      simp only [plain_cons, ht, hcolon, plain_nil, and_true]
      exact ⟨hopener, by decide⟩
    have hbody := Place.through_trans (through_wholeLine hhead hn p) (through_statements hblock)
    obtain ⟨q, hq, hthrough⟩ := through_blank (p := .closed) nofun hms
    exact ⟨q, hq, Place.through_trans hbody hthrough⟩

theorem member_laid (n : Nat) : Laid n MemberItem := by
  intro ts m p hlen h hp
  cases h with
  | plain hline => exact ⟨.ended, nofun, through_declaration hline p⟩
  | @withBodies ts d opener ns us accessor vs mutator closer hline hopener hblank hget hset hcloser =>
    obtain ⟨q, hq, hthrough⟩ := through_blank (p := .fresh) nofun hblank
    obtain ⟨q', hq', hthrough'⟩ := fieldBody_laid (by decide) _ us _ q (Nat.le_refl _) hget hq
    obtain ⟨r, hr, hthrough''⟩ := fieldBody_laid (by decide) _ vs _ q' (Nat.le_refl _) hset hq'
    have hbodies := Place.through_trans (Place.through_trans hthrough hthrough') hthrough''
    refine ⟨.closed, nofun, Place.through_trans (through_declaration hline p) ?_⟩
    exact Place.through_cons (by rw [hopener]; rfl)
      (Place.through_trans hbodies (through_closing hcloser hr))

theorem constructor_laid (n : Nat) : Laid n ConstructorItem := by
  intro ts c p _ h _
  cases h with
  | @plain first ts params ns hfirst hparams hn =>
    have hhead : Plain (first :: ts) := by
      simp [hfirst, plain_of_parameters hparams, layoutKinds]
    exact ⟨.ended, nofun, through_wholeLine hhead hn p⟩
  | @withBody first ts params ns us body hfirst hparams hn hbody =>
    have hhead : Plain (first :: ts) := by
      simp [hfirst, plain_of_parameters hparams, layoutKinds]
    exact ⟨.closed, nofun, Place.through_trans (through_wholeLine hhead hn p) (through_body hbody)⟩

theorem method_laid (n : Nat) : Laid n MethodItem := by
  rintro _ _ p _ @⟨ms, ts, header, ns, us, body, hms, hheader, hn, hbody⟩ _
  have hhead : Plain (ms ++ ts) :=
    plain_append.mpr ⟨plain_of_modifiers hms, plain_of_header hheader⟩
  obtain ⟨t, ts', hts⟩ : ∃ t ts', ms ++ ts = t :: ts' := by
    refine List.exists_cons_of_ne_nil fun hnil => ?_
    exact Parser.header_starts.ne_nil hheader (List.append_eq_nil_iff.mp hnil).2
  rw [hts] at hhead ⊢
  exact ⟨.closed, nofun, Place.through_trans (through_wholeLine hhead hn p) (through_body hbody)⟩

theorem classPart_laid (n : Nat) : Laid n ClassPart := by
  intro ts item p hlen h hp
  cases h with
  | constructor hc => exact constructor_laid n ts _ p hlen hc hp
  | method hm => exact method_laid n ts _ p hlen hm hp
  | member hm => exact member_laid n ts _ p hlen hm hp

theorem class_laid (n : Nat) : Laid n ClassDeclaration := by
  rintro _ _ p _ @⟨first, name, ts, interfaces, ns, us, items, hfirst, hname, hi, hn, hblock⟩ _
  have hhead : Plain (first :: name :: ts) := by
    simp [hfirst, hname, plain_of_implemented hi, layoutKinds]
  exact ⟨.closed, nofun, Place.through_trans (through_wholeLine hhead hn p)
    (through_block (classPart_laid us.length) (Nat.le_succ _) hblock)⟩

theorem programPart_laid (n : Nat) : Laid n ProgramPart := by
  intro ts item p hlen h hp
  cases h with
  | interface hi => exact interface_laid n ts _ p hlen hi hp
  | cls hc => exact class_laid n ts _ p hlen hc hp

theorem programParts_laid (n : Nat) : Laid n ProgramParts := by
  intro ts items p hlen h hp
  induction h generalizing p with
  | nil => exact ⟨p, hp, rfl⟩
  | @cons ts item ns us items hl hblank _ ih =>
    obtain ⟨q, hq, hthrough⟩ := programPart_laid _ ts item p (Nat.le_refl _) hl hp
    obtain ⟨q', hq', hthrough'⟩ := through_blank hq hblank
    rw [List.length_append] at hlen
    obtain ⟨r, hr, hthrough''⟩ := ih q' (by omega) hq'
    exact ⟨r, hr, Place.through_trans (Place.through_trans hthrough hthrough') hthrough''⟩

/-- A program runs from the start to where a line may start. -/
theorem wholeProgram_laid {ts : List Token} {p : Program} (h : WholeProgram ts p) :
    ∃ q, Place.fresh.through ts = some q := by
  obtain @⟨ns, ts, items, hblank, hparts⟩ := h
  obtain ⟨q, hq, hthrough⟩ := through_blank (p := .fresh) nofun hblank
  obtain ⟨r, -, hthrough'⟩ := programParts_laid _ ts items q (Nat.le_refl _) hparts hq
  exact ⟨r, Place.through_trans hthrough hthrough'⟩

end Grammar

/-- Tokens are no program if a level opens after a closing and a line end, or if an `else` stands
after a line end. -/
theorem parse_ne_ok {pre post : List Token} {a b c : Token}
    (h : a.kind = .dedent ∧ b.kind = .newline ∧ c.kind = .indent ∨
      b.kind = .newline ∧ c.kind = .elseWord) (p : Program) :
    parse (pre ++ a :: b :: c :: post) ≠ .ok p := by
  intro hparse
  obtain ⟨q, hthrough⟩ := Grammar.wholeProgram_laid (Parser.wholeProgram_of_parse hparse)
  rw [Place.through_eq_none _ pre post h] at hthrough
  cases hthrough

end Offside
