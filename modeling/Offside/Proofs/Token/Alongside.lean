import Offside.Proofs.Token.Lossless

/-! Two scanners that read the same text.

What a scanner does with a character depends on what it has begun and on the levels that are open,
but neither on the places of what it read nor on the tokens made before. So two scanners that are
alike in the former and differ in the latter stay so: `Beside base base'` says that both have made
the same tokens, places aside, after `base` and `base'`. -/
namespace Offside

/-- What a token is, where it stands aside. -/
def Token.face (t : Token) : Kind × String := (t.kind, t.text)

theorem Token.kind_of_face {t u : Token} (h : t.face = u.face) : t.kind = u.kind :=
  congrArg Prod.fst h

theorem Token.text_of_face {t u : Token} (h : t.face = u.face) : t.text = u.text :=
  congrArg Prod.snd h

/-- The same was begun, at two places. -/
inductive Mode.Alike : Mode → Mode → Prop
  | gap : Alike .gap .gap
  | margin {m} : Alike (.margin m) (.margin m)
  | word {p q letters} : Alike (.word p letters) (.word q letters)
  | number {p q digits point} : Alike (.number p digits point) (.number q digits point)
  | symbol {p q c} : Alike (.symbol p c) (.symbol q c)
  | text {p q chars} : Alike (.text p chars) (.text q chars)
  | quote {p q} : Alike (.quote p) (.quote q)
  | character {p q c} : Alike (.character p c) (.character q c)
  | comment {p q inner} : Alike (.comment p inner) (.comment q inner)
  | failed {e e'} : Alike (.failed e) (.failed e')

theorem Mode.Alike.symm {m m' : Mode} (h : m.Alike m') : m'.Alike m := by
  cases h <;> constructor

theorem Mode.Alike.trans {m m' m'' : Mode} (h : m.Alike m') (h' : m'.Alike m'') : m.Alike m'' := by
  cases h <;> cases h' <;> constructor

namespace Scanner

/-- The scanners are alike but for places and for the tokens that they made first, which are listed
last first, as a scanner keeps them. -/
structure Beside (base base' : List (Kind × String)) (s s' : Scanner) : Prop where
  levels : s.levels = s'.levels
  mode : s.mode.Alike s'.mode
  tokens : ∃ added, s.tokens.map Token.face = added ++ base ∧
    s'.tokens.map Token.face = added ++ base'

variable {base base' : List (Kind × String)} {s s' t t' : Scanner} {c : Char}

theorem Beside.failed (h : Beside base base' s s') : s.Failed ↔ s'.Failed := by
  have hmode := h.mode
  unfold Failed
  generalize s.mode = m at hmode
  generalize s'.mode = m' at hmode
  cases hmode <;> simp

/-- Both scanners make the same tokens. -/
theorem Beside.grow (h : Beside base base' s s') (faces : List (Kind × String))
    (hlevels : t.levels = t'.levels) (hmode : t.mode.Alike t'.mode)
    (ht : t.tokens.map Token.face = faces ++ s.tokens.map Token.face)
    (ht' : t'.tokens.map Token.face = faces ++ s'.tokens.map Token.face) :
    Beside base base' t t' := by
  obtain ⟨added, hs, hs'⟩ := h.tokens
  refine ⟨hlevels, hmode, faces ++ added, ?_, ?_⟩
  · rw [ht, hs, List.append_assoc]
  · rw [ht', hs', List.append_assoc]

/-! ### Beginning and ending -/

theorem beginning_alike (p q : Position) (c : Char) : (beginning p c).Alike (beginning q c) := by
  unfold beginning
  repeat' split
  · exact .comment
  · exact .text
  · exact .quote
  · exact .word
  · exact .number
  · exact .gap
  · exact .symbol

theorem begin_beside (h : Beside base base' s s') : Beside base base' (s.begin c) (s'.begin c) := by
  by_cases hfailed : s.Failed
  · obtain ⟨e, he⟩ := hfailed
    obtain ⟨e', he'⟩ := h.failed.mp ⟨e, he⟩
    rwa [begin, begin, he, he']
  · rw [begin_of_not_failed hfailed, begin_of_not_failed (hfailed ∘ h.failed.mpr)]
    split
    · exact h.grow [(.newline, "")] h.levels .margin rfl rfl
    · exact h.grow [] h.levels (beginning_alike _ _ c) rfl rfl

theorem endSymbol_beside (h : Beside base base' s s') (p q : Position) :
    Beside base base' (s.endSymbol p c) (s'.endSymbol q c) := by
  unfold endSymbol
  cases Kind.single? c with
  | some kind => exact h.grow [(kind, c.toString)] h.levels .gap rfl rfl
  | none => exact h.grow [] h.levels .failed rfl rfl

theorem close_beside (h : Beside base base' s s') : Beside base base' s.close s'.close := by
  have hmode := h.mode
  generalize hm : s.mode = m at hmode
  generalize hm' : s'.mode = m' at hmode
  unfold close
  rw [hm, hm']
  cases hmode with
  | word => exact h.grow [_] h.levels .gap rfl rfl
  | number => exact h.grow [_] h.levels .gap rfl rfl
  | symbol => exact endSymbol_beside h _ _
  | text | quote | character | comment => exact h.grow [] h.levels .failed rfl rfl
  | gap | margin | failed => exact h

/-! ### Levels -/

theorem map_face_replicate (n : Nat) (place : Position) :
    (List.replicate n (⟨.dedent, .single place, ""⟩ : Token)).map Token.face =
      List.replicate n (.dedent, "") := by
  rw [List.map_replicate]
  rfl

/-- The levels that are open after a line that starts at `level`. -/
def levelsAt (levels : List Nat) (level : Nat) : List Nat :=
  if levels.headD 0 < level then level :: levels else levels.dropWhile (level < ·)

/-- The changes of indentation before such a line, last first. -/
def changesAt (levels : List Nat) (level : Nat) : List (Kind × String) :=
  if levels.headD 0 < level then [(.indent, "")]
  else List.replicate (levels.takeWhile (level < ·)).length (.dedent, "")

theorem indentTo_levels (s : Scanner) (level : Nat) :
    (s.indentTo level).levels = levelsAt s.levels level := by
  unfold indentTo levelsAt
  split
  · rfl
  · simp only [closeLevels_eq]

theorem indentTo_faces (s : Scanner) (level : Nat) :
    (s.indentTo level).tokens.map Token.face =
      changesAt s.levels level ++ s.tokens.map Token.face := by
  unfold indentTo changesAt
  split
  · rfl
  · simp only [closeLevels_eq, List.map_append, map_face_replicate]

theorem indentTo_mode (s : Scanner) (level : Nat) : (s.indentTo level).mode = s.mode := by
  unfold indentTo
  split <;> rfl

theorem indentTo_beside (h : Beside base base' s s') (level : Nat) :
    Beside base base' (s.indentTo level) (s'.indentTo level) := by
  refine h.grow (changesAt s.levels level) ?_ ?_ (indentTo_faces s level) ?_
  · rw [indentTo_levels, indentTo_levels, h.levels]
  · rw [indentTo_mode, indentTo_mode]
    exact h.mode
  · rw [indentTo_faces, h.levels]

/-! ### Reading -/

theorem take_beside {m m' : Mode} (h : Beside base base' s s') (hmode : m.Alike m') :
    Beside base base' (s.take c m) (s'.take c m') :=
  h.grow [] h.levels hmode rfl rfl

/-- One character read keeps scanners beside each other. -/
theorem feed_beside (h : Beside base base' s s') : Beside base base' (s.feed c) (s'.feed c) := by
  have hmode := h.mode
  generalize hm : s.mode = m at hmode
  generalize hm' : s'.mode = m' at hmode
  unfold feed
  rw [hm, hm']
  cases hmode with
  | failed => exact h
  | gap => exact begin_beside h
  | margin =>
    dsimp only
    split
    · exact take_beside h .margin
    · exact take_beside h .margin
    · exact take_beside h .margin
    · exact take_beside h .margin
    · exact begin_beside (indentTo_beside h _)
  | word =>
    dsimp only
    split
    · exact take_beside h .word
    · exact begin_beside (h.grow [_] h.levels .gap rfl rfl)
  | number =>
    dsimp only
    split
    · exact take_beside h .number
    split
    · exact take_beside h .number
    · exact begin_beside (h.grow [_] h.levels .gap rfl rfl)
  | @symbol p q first =>
    dsimp only
    cases Kind.pair? first c with
    | some kind => exact h.grow [(kind, String.ofList [first, c])] h.levels .gap rfl rfl
    | none => exact begin_beside (endSymbol_beside h _ _)
  | text =>
    dsimp only
    split
    · exact h.grow [_] h.levels .gap rfl rfl
    · exact take_beside h .text
  | quote => exact take_beside h .character
  | character =>
    dsimp only
    split
    · exact h.grow [_] h.levels .gap rfl rfl
    · exact h.grow [] h.levels .failed rfl rfl
  | comment =>
    dsimp only
    split
    · exact take_beside h .comment
    · exact take_beside h .gap
    · exact take_beside h .comment
    · exact take_beside h .comment

theorem feedAll_beside (h : Beside base base' s s') (cs : List Char) :
    Beside base base' (s.feedAll cs) (s'.feedAll cs) := by
  induction cs generalizing s s' with
  | nil => exact h
  | cons c cs ih => exact ih (feed_beside h)

theorem feedAll_append (s : Scanner) (cs ds : List Char) :
    s.feedAll (cs ++ ds) = (s.feedAll cs).feedAll ds := List.foldl_append

/-! ### The end of the text -/

/-- Whether the last line has no end yet is told by the last token. -/
theorem unfinished_made (s : Scanner) :
    unfinished s.made = (s.tokens.map Token.face).head?.any (·.1 ≠ .newline) := by
  rw [unfinished, made, List.getLast?_reverse]
  cases s.tokens with
  | nil => rfl
  | cons t ts => rfl

theorem map_face_ending (place : Position) (made : List Token) (levels : Nat) :
    (ending place made levels).map Token.face =
      (if unfinished made then [(.newline, "")] else []) ++
        List.replicate levels (.dedent, "") := by
  rw [ending, List.map_append, map_face_replicate]
  split <;> rfl

/-- Scanners that made the same token last end with the same tokens. -/
theorem settle_beside {first : Kind × String} (h : Beside (first :: base) (first :: base') s s') :
    Beside (first :: base) (first :: base') s.settle s'.settle := by
  by_cases hfailed : s.Failed
  · obtain ⟨e, he⟩ := hfailed
    obtain ⟨e', he'⟩ := h.failed.mp ⟨e, he⟩
    rwa [settle, settle, he, he']
  have hunfinished : unfinished s.made = unfinished s'.made := by
    obtain ⟨added, htokens, htokens'⟩ := h.tokens
    rw [unfinished_made, unfinished_made, htokens, htokens']
    cases added with
    | nil => rfl
    | cons face added => rfl
  rw [settle_of_not_failed hfailed, settle_of_not_failed (hfailed ∘ h.failed.mpr), ← h.levels]
  refine h.grow ((ending s.here.right s.made s.levels.length).map Token.face).reverse rfl
    h.mode ?_ ?_
  · rw [List.map_append, List.map_reverse]
  · rw [List.map_append, List.map_reverse, map_face_ending, map_face_ending, hunfinished]

/-! ### The first token -/

theorem feed_failed (h : s.Failed) : (s.feed c).Failed := by
  obtain ⟨e, he⟩ := h
  rw [feed, he]
  exact ⟨e, he⟩

theorem feedAll_failed (h : s.Failed) (cs : List Char) : (s.feedAll cs).Failed := by
  induction cs generalizing s with
  | nil => exact h
  | cons c cs ih => exact ih (feed_failed h)

theorem close_failed (h : s.Failed) : s.close.Failed := by
  obtain ⟨e, he⟩ := h
  rw [close, he]
  exact ⟨e, he⟩

end Scanner

namespace Mode

/-- A token was begun. -/
def Begun : Mode → Prop
  | .word .. | .number .. | .symbol .. | .text .. | .quote .. | .character .. => True
  | .gap | .margin _ | .comment .. | .failed _ => False

/-- What was begun is, with the letters that follow, the word. -/
def Spells (word rest : List Char) : Mode → Prop
  | .word _ letters => letters.reverse ++ rest.takeWhile Text.isLetter = word
  | _ => False

end Mode

theorem Mode.Alike.refl (m : Mode) : m.Alike m := by
  cases m <;> constructor

theorem Mode.Alike.begun {m m' : Mode} (h : m.Alike m') : m.Begun ↔ m'.Begun := by
  cases h <;> rfl

theorem Mode.Alike.spells {m m' : Mode} (h : m.Alike m') (word rest : List Char) :
    m.Spells word rest ↔ m'.Spells word rest := by
  cases h <;> rfl

theorem reserved_else {s : String} :
    (Kind.reserved? s).getD .word = .elseWord ↔ s = "else" := by
  constructor
  · intro h
    unfold Kind.reserved? at h
    split at h <;> first | rfl | cases h
  · rintro rfl
    rfl

theorem single_ne_else {c : Char} {kind : Kind} (h : Kind.single? c = some kind) :
    kind ≠ .elseWord := by
  unfold Kind.single? at h
  split at h <;> cases h <;> decide

theorem pair_ne_else {c d : Char} {kind : Kind} (h : Kind.pair? c d = some kind) :
    kind ≠ .elseWord := by
  unfold Kind.pair? at h
  split at h <;> cases h <;> decide

namespace Scanner

section Begun
variable {base base' : List (Kind × String)} {s s' : Scanner} {c : Char} {rest : List Char}

/-- Two scanners that began the same token. -/
structure Begins (base base' : List (Kind × String)) (s s' : Scanner) : Prop where
  levels : s.levels = s'.levels
  mode : s.mode.Alike s'.mode
  begun : s.mode.Begun
  left : s.tokens.map Token.face = base
  right : s'.tokens.map Token.face = base'

/-- The first token made after `base` and `base'` is the same, and it is an `else` only if that is
what is spelled. -/
def Makes (base base' : List (Kind × String)) (isElse : Prop) (t t' : Scanner) : Prop :=
  ∃ first, Beside (first :: base) (first :: base') t t' ∧ (first.1 = .elseWord ↔ isElse)

theorem Begins.makes {t t' : Scanner} {isElse : Prop} (h : Begins base base' s s') (kind : Kind)
    (text : String) (hlevels : t.levels = t'.levels) (hmode : t.mode.Alike t'.mode)
    (ht : t.tokens.map Token.face = (kind, text) :: s.tokens.map Token.face)
    (ht' : t'.tokens.map Token.face = (kind, text) :: s'.tokens.map Token.face)
    (helse : kind = .elseWord ↔ isElse) : Makes base base' isElse t t' := by
  refine ⟨(kind, text), ⟨hlevels, hmode, [], ?_, ?_⟩, helse⟩
  · rw [ht, h.left]
    rfl
  · rw [ht', h.right]
    rfl

/-- What was begun ends in a token, or is none. -/
theorem close_begun (rest : List Char) (h : Begins base base' s s')
    (hrest : NotFollowed (Continues s.mode) rest) :
    s.close.Failed ∨ Makes base base' (s.mode.Spells "else".toList rest) s.close s'.close := by
  have hmode := h.mode
  have hbegun := h.begun
  generalize hm : s.mode = m at hmode hbegun hrest
  generalize hm' : s'.mode = m' at hmode
  unfold close
  rw [hm, hm']
  cases hmode with
  | gap | margin | comment | failed => exact absurd hbegun id
  | @word p q letters =>
    refine .inr (h.makes _ _ h.levels .gap rfl rfl ?_)
    have htake : rest.takeWhile Text.isLetter = [] := by
      cases rest with
      | nil => rfl
      | cons d rest => exact List.takeWhile_cons_of_neg hrest
    rw [reserved_else, Mode.Spells, htake, List.append_nil, spelled, ← String.toList_inj,
      String.toList_ofList]
  | number => exact .inr (h.makes _ _ h.levels .gap rfl rfl (iff_of_false (by simp) id))
  | @symbol p q c =>
    show (s.endSymbol p c).Failed ∨ Makes base base' False (s.endSymbol p c) (s'.endSymbol q c)
    unfold endSymbol
    cases hkind : Kind.single? c with
    | none => exact .inl ⟨_, rfl⟩
    | some kind => exact .inr (h.makes _ _ h.levels .gap rfl rfl (iff_of_false (single_ne_else hkind) id))
  | text | quote | character => exact .inl ⟨_, rfl⟩

theorem begin_of_makes {t t' : Scanner} {isElse : Prop}
    (h : t.Failed ∨ Makes base base' isElse t t') :
    (t.begin c).Failed ∨ Makes base base' isElse (t.begin c) (t'.begin c) := by
  rcases h with ⟨e, he⟩ | ⟨first, hbeside, helse⟩
  · refine .inl ⟨e, ?_⟩
    rw [begin, he]
    exact he
  · exact .inr ⟨first, begin_beside hbeside, helse⟩

/-- A character goes on with what was begun, or ends it in a token. -/
theorem feed_begun (rest : List Char) (h : Begins base base' s s') :
    ((s.feed c).Failed ∨
      Makes base base' (s.mode.Spells "else".toList (c :: rest)) (s.feed c) (s'.feed c)) ∨
      Begins base base' (s.feed c) (s'.feed c) ∧
        ((s.feed c).mode.Spells "else".toList rest ↔ s.mode.Spells "else".toList (c :: rest)) := by
  have hmode := h.mode
  have hbegun := h.begun
  have hends : ¬ Continues s.mode c → _ := fun hstop =>
    begin_of_makes (c := c) (close_begun (c :: rest) h hstop)
  generalize hm : s.mode = m at hmode hbegun hends
  generalize hm' : s'.mode = m' at hmode
  unfold close at hends
  unfold feed
  rw [hm, hm'] at hends
  rw [hm, hm']
  cases hmode with
  | gap | margin | comment | failed => exact absurd hbegun id
  | word =>
    dsimp only
    split
    case isTrue hletter =>
      refine .inr ⟨⟨h.levels, .word, trivial, h.left, h.right⟩, ?_⟩
      simp [take, Mode.Spells, hletter]
    case isFalse hletter => exact .inl (hends hletter)
  | @number p q digits point =>
    dsimp only
    split
    case isTrue => exact .inr ⟨⟨h.levels, .number, trivial, h.left, h.right⟩, .rfl⟩
    case isFalse hdigit =>
    split
    case isTrue => exact .inr ⟨⟨h.levels, .number, trivial, h.left, h.right⟩, .rfl⟩
    case isFalse hpoint =>
      refine .inl (hends ?_)
      rintro (hc | hc)
      · exact hdigit hc
      · exact hpoint (by simpa using hc)
  | @symbol p q first =>
    dsimp only
    cases hpair : Kind.pair? first c with
    | some kind =>
      exact .inl (.inr (h.makes _ _ h.levels .gap rfl rfl (iff_of_false (pair_ne_else hpair) id)))
    | none => exact .inl (hends (by simp [Continues, hpair]))
  | text =>
    dsimp only
    split
    · exact .inl (.inr (h.makes _ _ h.levels .gap rfl rfl (iff_of_false (by simp) id)))
    · exact .inr ⟨⟨h.levels, .text, trivial, h.left, h.right⟩, .rfl⟩
  | quote => exact .inr ⟨⟨h.levels, .character, trivial, h.left, h.right⟩, .rfl⟩
  | character =>
    dsimp only
    split
    · exact .inl (.inr (h.makes _ _ h.levels .gap rfl rfl (iff_of_false (by simp) id)))
    · exact .inl (.inl ⟨_, rfl⟩)

/-- Two scanners that began the same token go on with the same tokens, unless they fail. -/
theorem ended_begun (h : Begins base base' s s') (hok : ¬ (s.feedAll rest).close.Failed) :
    Makes base base' (s.mode.Spells "else".toList rest) (s.feedAll rest).close
      (s'.feedAll rest).close := by
  induction rest generalizing s s' with
  | nil => exact (close_begun [] h trivial).resolve_left hok
  | cons c rest ih =>
    -- The token ends at `c`, and from there on the scanners are beside each other, or it goes on.
    rcases feed_begun (c := c) rest h with (hfailed | ⟨first, hbeside, helse⟩) | ⟨hnext, hsame⟩
    · exact absurd (close_failed (feedAll_failed hfailed rest)) hok
    · exact ⟨first, close_beside (feedAll_beside hbeside rest), helse⟩
    · rw [← hsame]
      exact ih hnext hok

end Begun

end Scanner

end Offside
