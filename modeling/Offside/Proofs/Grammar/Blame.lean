import Offside.Proofs.Grammar.Program

/-! Where readers fail.

A reader fails at a token that it does not take, except for a number that is malformed or a
character that is empty: there it has taken the token that it blames. `ParseError.ahead` are the
tokens before the one that is blamed.

`Leads V p` says that `V` can be met by what is read from here on, and that wherever `p` fails it
could still have been met: what was read ahead of the blamed token can be completed. A sequence of
readers is followed by changing `V`, which takes in what has been read so far, and a production is
left with showing that what it has read when it ends is a phrase. -/
namespace Offside

/-- The token that is blamed, if it was taken: it stands for no value. -/
def ParseError.taken? (e : ParseError) : Option Token :=
  match e.cause with
  | .malformedNumber text => some ⟨.number, e.span, text⟩
  | .emptyCharacter => some ⟨.character, e.span, ""⟩
  | _ => none

/-- If the blamed token was taken, it is the last of these. -/
def ParseError.Ends (e : ParseError) (ts : List Token) : Prop :=
  ∀ t ∈ e.taken?, ∃ us, ts = us ++ [t]

/-- Of tokens that were taken, those before the one that is blamed. -/
def ParseError.ahead (e : ParseError) (ts : List Token) : List Token :=
  if e.taken?.isSome then ts.dropLast else ts

theorem ParseError.ends_of_none {e : ParseError} (he : e.taken? = none) (ts : List Token) :
    e.Ends ts := by
  simp [Ends, he]

theorem ParseError.Ends.append {e : ParseError} {us : List Token} (h : e.Ends us)
    (ts : List Token) : e.Ends (ts ++ us) := by
  intro t ht
  obtain ⟨vs, rfl⟩ := h t ht
  exact ⟨ts ++ vs, (List.append_assoc ..).symm⟩

theorem ParseError.ahead_of_none {e : ParseError} (he : e.taken? = none) (ts : List Token) :
    e.ahead ts = ts := by
  simp [ahead, he]

theorem ParseError.ahead_concat {e : ParseError} {t : Token} (he : e.taken? = some t)
    (ts : List Token) :
    e.ahead (ts ++ [t]) = ts := by
  simp [ahead, he]

theorem ParseError.ahead_append {e : ParseError} {us : List Token} (hus : e.Ends us)
    (ts : List Token) :
    e.ahead (ts ++ us) = ts ++ e.ahead us := by
  cases he : e.taken? with
  | none => rw [ahead_of_none he, ahead_of_none he]
  | some t =>
    obtain ⟨vs, rfl⟩ := hus t he
    rw [← List.append_assoc, ahead_concat he, ahead_concat he]

theorem ParseError.ahead_prefix (e : ParseError) (ts : List Token) : e.ahead ts <+: ts := by
  unfold ahead
  split
  · exact List.dropLast_prefix ts
  · exact List.prefix_refl ts

theorem Cursor.complaint_taken? (c : Cursor) (kinds : List Kind) :
    (c.complaint kinds).taken? = none := by
  unfold Cursor.complaint
  split <;> rfl

/-- A token of the kind, to complete what was read so far. -/
def Token.sample (kind : Kind) : Token := ⟨kind, .single ⟨1, 1, ""⟩, ""⟩

/-- The tokens stand for something. -/
def Phrase {α : Type} (L : Language α) (ts : List Token) : Prop := ∃ a, L ts a

variable {V W : List Token → Prop}

/-- Some sequence that starts with the tokens satisfies `V`. -/
def Viable (V : List Token → Prop) (ts : List Token) : Prop := ∃ us, V (ts ++ us)

theorem Viable.of_mem {ts : List Token} (h : V ts) : Viable V ts := ⟨[], by rwa [List.append_nil]⟩

theorem Viable.within {ts : List Token} (h : Viable V ts) (hW : ∀ ts, V ts → Viable W ts) :
    Viable W ts := by
  obtain ⟨us, hus⟩ := h
  obtain ⟨vs, hvs⟩ := hW _ hus
  exact ⟨us ++ vs, by rwa [← List.append_assoc]⟩

namespace Parser

open Reading Grammar

variable {α β : Type}

/-! ### Failing -/

theorem bind_eq_error {p : Parser α} {f : α → Parser β} {s s'' : Reading} {e : ParseError} :
    (p >>= f) s = .error e s'' ↔ p s = .error e s'' ∨ ∃ a s', p s = .ok a s' ∧
    f a s' = .error e s'' := by
  show EStateM.bind p f s = _ ↔ _
  unfold EStateM.bind
  cases h : p s with
  | ok a s' =>
    constructor
    · intro hf
      exact .inr ⟨a, s', rfl, hf⟩
    · rintro (heq | ⟨a, s', heq, hf⟩)
      · cases heq
      · cases heq
        exact hf
  | error e' s' => simp

/-- If the reader fails here, what it has read ahead of the token that it blames can be completed.
-/
def FailsAt (V : List Token → Prop) (p : Parser α) (s : Reading) : Prop :=
  ∀ e s', p s = .error e s' → ∃ ts, Moved s ts s' ∧ e.Ends ts ∧ Viable V (e.ahead ts)

theorem FailsAt.within {p : Parser α} {s : Reading} (h : FailsAt V p s)
    (hW : ∀ ts, ts <+: s.cursor.rest → Viable V ts → Viable W ts) : FailsAt W p s := by
  intro e s' hs'
  obtain ⟨ts, hm, hends, hts⟩ := h e s' hs'
  exact ⟨ts, hm, hends, hW _ ((e.ahead_prefix ts).trans ⟨_, hm.rest.symm⟩) hts⟩

/-- One reader after another. -/
theorem FailsAt.bind {L : Language α} {p : Parser α} {f : α → Parser β} {s : Reading}
    (hs : Sound p L)
    (hb : s.Bounded) (hp : FailsAt V p s)
    (hf : ∀ ts a s', Moved s ts s' → L ts a → FailsAt (fun us => V (ts ++ us)) (f a) s') :
    FailsAt V (p >>= f) s := by
  intro e s'' h
  rcases bind_eq_error.mp h with h | ⟨a, s', h₁, h₂⟩
  · exact hp e s'' h
  · obtain ⟨ts, hm₁, hl⟩ := hs s a s' hb h₁
    obtain ⟨us, hm₂, hends, vs, hvs⟩ := hf ts a s' hm₁ hl e s'' h₂
    refine ⟨ts ++ us, hm₁.trans hm₂, hends.append ts, vs, ?_⟩
    rwa [e.ahead_append hends, List.append_assoc]

/-- A reader that goes on without having taken anything. -/
theorem FailsAt.of_ok {p : Parser α} {f : α → Parser β} {s s' : Reading} {a : α}
    (hp : p s = .ok a s')
    (hm : Moved s [] s') (hf : FailsAt V (f a) s') : FailsAt V (p >>= f) s := by
  intro e s'' h
  rw [bind_of_ok hp] at h
  obtain ⟨ts, hm', hends, hts⟩ := hf e s'' h
  exact ⟨ts, hm.nil_trans hm', hends, hts⟩

/-- A reader that does not fail. -/
def Never (p : Parser α) : Prop := ∀ s e s', p s ≠ .error e s'

theorem Never.bind {p : Parser α} {f : α → Parser β} (hp : Never p) (hf : ∀ a, Never (f a)) :
    Never (p >>= f) := by
  intro s e s'' h
  rcases bind_eq_error.mp h with h | ⟨a, s', -, h⟩
  · exact hp s e s'' h
  · exact hf a s' e s'' h

theorem pure_never (a : α) : Never (pure a : Parser α) := nofun

/-- A reader after which nothing can fail. -/
theorem FailsAt.final {p : Parser α} {f : α → Parser β} {s : Reading} (hp : FailsAt V p s)
    (hf : ∀ a, Never (f a)) :
    FailsAt V (p >>= f) s := by
  intro e s'' h
  rcases bind_eq_error.mp h with h | ⟨a, s', -, h⟩
  · exact hp e s'' h
  · exact absurd h (hf a s' e s'')

/-- `V` can be met from here, and wherever the reader fails it could still have been. -/
structure Leads (V : List Token → Prop) (p : Parser α) : Prop where
  viable : Viable V []
  fails : ∀ s, s.Bounded → FailsAt V p s

theorem Leads.within {p : Parser α} (h : Leads V p) (hW : ∀ ts, V ts → Viable W ts) : Leads W p :=
  ⟨h.viable.within hW, fun s hb => (h.fails s hb).within fun _ _ hts => hts.within hW⟩

theorem Leads.bind {L : Language α} {p : Parser α} {f : α → Parser β} (hs : Sound p L)
    (hp : Leads (Phrase L) p)
    (hf : ∀ ts a, L ts a → Leads (fun us => V (ts ++ us)) (f a)) : Leads V (p >>= f) := by
  have hp : Leads V p := by
    refine hp.within ?_
    rintro ts ⟨a, ha⟩
    exact (hf ts a ha).viable
  refine ⟨hp.viable, fun s hb => ?_⟩
  exact .bind hs hb (hp.fails s hb) fun ts a s' hm hl => (hf ts a hl).fails s' (hm.bounded hb)

theorem Leads.final {p : Parser α} {f : α → Parser β} (hp : Leads V p) (hf : ∀ a, Never (f a)) :
    Leads V (p >>= f) :=
  ⟨hp.viable, fun s hb => (hp.fails s hb).final hf⟩

theorem Never.leads {p : Parser α} (h : Never p) (hV : Viable V []) : Leads V p :=
  ⟨hV, fun s _ e s' hs' => absurd hs' (h s e s')⟩

theorem pure_leads {a : α} (hV : Viable V []) : Leads V (pure a : Parser α) :=
  (pure_never a).leads hV

/-- A reader that fails without having taken anything. -/
theorem leads_of_error {p : Parser α} (hV : Viable V [])
    (hp : ∀ s e s', p s = .error e s' → s' = s ∧ e.taken? = none) : Leads V p := by
  refine ⟨hV, fun s _ e s' h => ?_⟩
  obtain ⟨rfl, he⟩ := hp s e s' h
  refine ⟨[], Moved.refl s', e.ends_of_none he [], ?_⟩
  rwa [e.ahead_of_none he]

/-! ### Single tokens -/

theorem expectAny_eq_error {kinds : List Kind} {s s' : Reading} {e : ParseError}
    (h : expectAny kinds s = .error e s') : s' = s ∧ e = s.cursor.complaint kinds := by
  rw [expectAny, bind_of_ok (cursor_run s)] at h
  cases htake : s.cursor.take? (·.kind ∈ kinds) with
  | none =>
    simp only [Cursor.expect, Cursor.matchFirst?_eq, htake] at h
    cases h
    exact ⟨rfl, rfl⟩
  | some taken =>
    simp only [Cursor.expect, Cursor.matchFirst?_eq, htake] at h
    cases h

theorem expectAny_leads {kinds : List Kind} (hV : Viable V []) : Leads V (expectAny kinds) := by
  refine leads_of_error hV fun s e s' h => ?_
  obtain ⟨rfl, rfl⟩ := expectAny_eq_error h
  exact ⟨rfl, Cursor.complaint_taken? _ _⟩

theorem complain_leads {kinds : List Kind} (hV : Viable V []) :
    Leads V (complain kinds : Parser α) := by
  refine leads_of_error hV fun s e s' h => ?_
  cases h
  exact ⟨rfl, Cursor.complaint_taken? _ _⟩

theorem throw_leads {cause : ParseCause} (hV : Viable V [])
    (hcause : ∀ span, (ParseError.mk cause span).taken? = none) :
    Leads V (do throw ⟨cause, (← cursor).location⟩ : Parser α) := by
  refine leads_of_error hV fun s e s' h => ?_
  cases h
  exact ⟨rfl, hcause _⟩

/-- A token of one of the kinds. -/
inductive OneOf (kinds : List Kind) : Language Token
  | mk {t} : t.kind ∈ kinds → OneOf kinds [t] t

theorem oneOf_sound (kinds : List Kind) : Sound (expectAny kinds) (OneOf kinds) := by
  intro s t s' _ h
  obtain ⟨ht, hm⟩ := expectAny_sound h
  exact ⟨[t], hm, .mk ht⟩

theorem FailsAt.expect {kind : Kind} {f : Token → Parser α} {s : Reading} (hb : s.Bounded)
    (hV : Viable V [])
    (hf : ∀ t s', t.kind = kind → Moved s [t] s' → FailsAt (fun us => V (t :: us)) (f t) s') :
    FailsAt V (expect kind >>= f) s := by
  refine .bind (oneOf_sound [kind]) hb ((expectAny_leads hV).fails s hb) ?_
  rintro _ t s' hm ⟨ht⟩
  exact hf t s' (List.mem_singleton.mp ht) hm

theorem Leads.expectAny {kinds : List Kind} {f : Token → Parser α} {kind : Kind}
    (hkind : kind ∈ kinds)
    (hf : ∀ t, t.kind ∈ kinds → Leads (fun us => V (t :: us)) (f t)) :
    Leads V (expectAny kinds >>= f) := by
  have hsample : OneOf kinds [Token.sample kind] (Token.sample kind) := .mk hkind
  refine .bind (oneOf_sound kinds) (expectAny_leads ⟨_, _, hsample⟩) ?_
  rintro _ t ⟨ht⟩
  exact hf t ht

theorem Leads.expect {kind : Kind} {f : Token → Parser α}
    (hf : ∀ t, t.kind = kind → Leads (fun us => V (t :: us)) (f t)) : Leads V (expect kind >>= f) :=
  .expectAny (List.mem_singleton_self kind) fun t ht => hf t (List.mem_singleton.mp ht)

/-- A reader that takes nothing and does not fail. -/
def Still (p : Parser α) : Prop := ∀ s, ∃ a s', p s = .ok a s' ∧ Moved s [] s'

theorem Still.never {p : Parser α} (hp : Still p) : Never p := by
  intro s e s' h
  obtain ⟨a, s₁, h₁, -⟩ := hp s
  rw [h₁] at h
  cases h

theorem Leads.still {p : Parser α} {f : α → Parser β} (hp : Still p) (hf : ∀ a, Leads V (f a)) :
    Leads V (p >>= f) := by
  constructor
  · obtain ⟨a, -, -, -⟩ := hp (.ofTokens [])
    exact (hf a).viable
  · intro s hb
    obtain ⟨a, s', h, hm⟩ := hp s
    exact .of_ok h hm ((hf a).fails s' (hm.bounded hb))

theorem nextIs_still (offset : Int) (kinds : List Kind) : Still (nextIs offset kinds) :=
  fun s => ⟨_, s, rfl, Moved.refl s⟩

theorem spanFrom_still (start : Position) : Still (spanFrom start) := by
  intro s
  rw [spanFrom, bind_of_ok (cursor_run s)]
  cases s.cursor.peek? (-1) with
  | none => exact ⟨_, s, rfl, Moved.refl s⟩
  | some last => exact ⟨_, s, rfl, Moved.refl s⟩

theorem position_still : Still position := fun s => ⟨_, s, rfl, Moved.refl s⟩

theorem passing_still (m : Milestone) : Still (passing m) := fun _ => ⟨(), _, rfl, rfl, rfl, rfl⟩

theorem accept_never (kind : Kind) : Never (accept kind) := by
  intro s e s' h
  rw [accept, bind_of_ok (cursor_run s)] at h
  cases hmatch : s.cursor.match? kind with
  | none =>
    simp only [hmatch] at h
    cases h
  | some taken =>
    simp only [hmatch] at h
    cases h

/-- A token that may be there, and whether it is. -/
inductive Accepted (kind : Kind) : Language Bool
  | absent : Accepted kind [] false
  | present {t} : t.kind = kind → Accepted kind [t] true

theorem accepted_sound (kind : Kind) : Sound (accept kind) (Accepted kind) := by
  intro s b s' _ h
  rcases accept_cases h with ⟨rfl, t, ht, hm⟩ | ⟨rfl, rfl, -⟩
  · exact ⟨[t], hm, .present ht⟩
  · exact ⟨[], Moved.refl s', .absent⟩

theorem Leads.accept {kind : Kind} {f : Bool → Parser α}
    (hyes : ∀ t, t.kind = kind → Leads (fun us => V (t :: us)) (f true)) (hno : Leads V (f false)) :
    Leads V (accept kind >>= f) := by
  refine .bind (accepted_sound kind) ((accept_never kind).leads (.of_mem ⟨false, .absent⟩))
    fun ts b h => ?_
  cases h with
  | absent => exact hno
  | present ht => exact hyes _ ht

/-! ### Repetitions -/

theorem countOf_never (kind : Kind) (bound : Nat) : Never (countOf kind bound) := by
  induction bound with
  | zero => exact pure_never _
  | succ bound ih =>
    refine (accept_never kind).bind fun b => ?_
    cases b with
    | false => exact pure_never _
    | true => exact ih.bind fun _ => pure_never _

theorem withBound_never {p : Nat → Parser α} (h : ∀ bound, Never (p bound)) : Never (withBound p) :=
  fun s => h s.count s

theorem skipNewlines_never : Never skipNewlines :=
  (withBound_never (countOf_never .newline)).bind fun _ => pure_never _

theorem blank_nil : Blank [] := by simp [Blank]

theorem Leads.skipNewlines {f : Parser α} (hf : ∀ ns, Blank ns → Leads (fun us => V (ns ++ us)) f) :
    Leads V (skipNewlines >>= fun _ => f) := by
  have hs : Sound Parser.skipNewlines fun ns _ => Blank ns :=
    fun s _ s' hb h => skipNewlines_sound hb h
  exact .bind hs (skipNewlines_never.leads (.of_mem ⟨(), blank_nil⟩)) fun ns _ hns => hf ns hns

theorem lineEnd_sample : LineEnd [Token.sample .newline] :=
  ⟨List.cons_ne_nil _ _, by simp [Blank, Token.sample]⟩

theorem Leads.lineEnd {f : Parser α} (hf : ∀ ns, LineEnd ns → Leads (fun us => V (ns ++ us)) f) :
    Leads V (lineEnd >>= fun _ => f) := by
  have hs : Sound Parser.lineEnd fun ns _ => LineEnd ns := fun s _ s' hb h => lineEnd_sound hb h
  refine .bind hs (.final (expectAny_leads ⟨_, (), lineEnd_sample⟩) fun _ => skipNewlines_never)
    fun ns _ hns => hf ns hns

theorem Leads.withBound {p : Nat → Parser α} (h : ∀ bound, Leads V (p bound)) :
    Leads V (withBound p) :=
  ⟨(h 0).viable, fun s hb => (h s.count).fails s hb⟩

end Parser

namespace Grammar

variable {α : Type} {L : Language α}

theorem Separated.ne_nil {separator : Kind} {ts : List Token} {as : List α}
    (h : Separated separator L ts as) :
    as ≠ [] := by
  cases h <;> exact List.cons_ne_nil _ _

theorem Separated.snoc {separator : Kind} {ts us : List Token} {as : List α} {t : Token} {a : α}
    (h : Separated separator L ts as) (ht : t.kind = separator) (ha : L us a) :
    Separated separator L (ts ++ t :: us) (as ++ [a]) := by
  induction h with
  | one hl => exact .more hl ht (.one ha)
  | more hl hsep _ ih =>
    rw [List.append_assoc, List.cons_append]
    exact .more hl hsep ih

theorem Items.snoc {ts ns us : List Token} {as : List α} {a : α} (h : Items L ts as) (hn : Blank ns)
    (ha : L us a) :
    Items L (ts ++ (ns ++ us)) (as ++ [a]) := by
  induction h with
  | nil => simpa using Items.cons hn ha .nil
  | cons hn' hl _ ih => simpa only [List.append_assoc, List.cons_append] using Items.cons hn' hl ih

theorem ProgramParts.snoc {ts us ns : List Token} {items : List Program} {item : Program}
    (h : ProgramParts ts items) (hitem : ProgramPart us item) (hn : Blank ns) :
    ProgramParts (ts ++ (us ++ ns)) (items ++ [item]) := by
  induction h with
  | nil => simpa using ProgramParts.cons hitem hn .nil
  | cons hitem' hn' _ ih =>
    simpa only [List.append_assoc, List.cons_append] using ProgramParts.cons hitem' hn' ih

end Grammar

namespace Parser

open Reading Grammar

section Lists
variable {α : Type} {L : Language α} {item : Parser α}

theorem afterSeparators_leads {separator : Kind} (hs : Sound item L) (hitem : Leads (Phrase L) item)
    (bound : Nat)
    {ts : List Token} {as : List α} (h : Separated separator L ts as) :
    Leads (fun us => Phrase (Separated separator L) (ts ++ us))
      (afterSeparators separator item bound) := by
  have hend : Viable (fun us => Phrase (Separated separator L) (ts ++ us)) [] :=
    ⟨[], as, by simpa using h⟩
  induction bound generalizing ts as with
  | zero => exact pure_leads hend
  | succ bound ih =>
    refine .accept (fun t ht => .bind hs hitem fun us a ha => .final ?_ fun _ => pure_never _)
      (pure_leads hend)
    have hmore := h.snoc ht ha
    have hrest := ih hmore ⟨[], _, by simpa using hmore⟩
    simpa only [List.append_assoc, List.cons_append] using hrest

theorem separated_leads {separator : Kind} (hs : Sound item L) (hitem : Leads (Phrase L) item) :
    Leads (Phrase (Separated separator L)) (separated separator item) :=
  .bind hs hitem fun _ _ ha =>
    .final (.withBound fun bound => afterSeparators_leads hs hitem bound (.one ha)) fun _ =>
      pure_never _

theorem untilDedent_leads (hs : Sound item L) (hitem : Leads (Phrase L) item) {opener : Token}
    (ho : opener.kind = .indent) (bound : Nat) {ts : List Token} {as : List α} (h : Items L ts as) :
    Leads (fun us => Phrase (Block L) (opener :: (ts ++ us))) (untilDedent item bound) := by
  induction bound generalizing ts as with
  | zero =>
    refine .bind hs hitem fun us a ha => pure_leads ⟨[Token.sample .dedent], as ++ [a], ?_⟩
    have hitems := h.snoc blank_nil ha
    have hclose : (Token.sample .dedent).kind = .dedent := rfl
    simpa using Block.mk ho hitems blank_nil hclose
  | succ bound ih =>
    refine .skipNewlines fun ns hn => .accept (fun t ht => pure_leads (.of_mem ⟨as, ?_⟩)) ?_
    · simpa using Block.mk ho h hn ht
    · refine .bind hs hitem fun us a ha => .final ?_ fun _ => pure_never _
      simpa only [List.append_assoc] using ih (h.snoc hn ha)

theorem block_leads (hs : Sound item L) (hitem : Leads (Phrase L) item) :
    Leads (Phrase (Block L)) (block item) :=
  .expect fun _ ho => .withBound fun bound => untilDedent_leads hs hitem ho bound .nil

end Lists
end Parser
end Offside
