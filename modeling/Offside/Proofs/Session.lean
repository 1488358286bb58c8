import Mathlib.Data.List.Induction
import Offside.Session
import Offside.Proofs.Machine.Console

/-! The session as a buffer of lines, for every history of lines.

A session keeps the program's lines since it was last reset, and what it prints when it runs them depends
on nothing else. -/
namespace Offside

namespace Session

/-- A line of the program: what is left of it without white space does not start with a colon. -/
def isProgramLine (line : String) : Bool := (Text.trimChars line.toList).head? != some ':'

/-- A line that gives a command, whatever its case and the white space around it. -/
def isCommand (name line : String) : Bool := (Text.trimChars line.toList).map lowerLetter == name.toList

/-- A new session that has taken lines. -/
def ofLines (lines : List String) : Session := lines.foldl (fun s line => (s.handle line).1) .empty

/-- The lines after the last one that resets. -/
def sinceReset (lines : List String) : List String :=
  (lines.reverse.takeWhile fun line => !isCommand ":reset" line).reverse

/-! ### Commands -/

theorem lowerLetter_eq_colon {c : Char} : lowerLetter c = ':' ↔ c = ':' := by
  constructor
  case mpr => rintro rfl; rfl
  intro h
  unfold lowerLetter at h
  split at h
  · exact absurd h (by decide)
  split at h
  · exact absurd h (by decide)
  unfold Char.toLower at h
  split at h
  · next hupper =>
    -- A capital letter becomes a small one.
    have hval : (c.val + 32).toNat = 58 := congrArg (fun c => c.val.toNat) h
    have hle : 65 ≤ c.val.toNat := UInt32.le_iff_toNat_le.mp hupper.1
    have hge : c.val.toNat ≤ 90 := UInt32.le_iff_toNat_le.mp hupper.2
    rw [UInt32.toNat_add, show (32 : UInt32).toNat = 32 from rfl] at hval
    omega
  · exact h

theorem isProgramLine_iff {line : String} : isProgramLine line ↔ command? line = none := by
  unfold isProgramLine command?
  split
  · next htrim => simp [htrim]
  · next hcolon =>
    cases htrim : Text.trimChars line.toList with
    | nil => simp
    | cons c rest =>
      have hc : c ≠ ':' := fun h => hcolon rest (h ▸ htrim)
      simp [hc]

theorem isCommand_iff {word line : String} :
    isCommand (":" ++ word) line ↔
      ∃ name, Text.trimChars line.toList = ':' :: name ∧ String.ofList (name.map lowerLetter) = word := by
  rw [isCommand, beq_iff_eq, String.toList_append, show ":".toList = [':'] from rfl, List.singleton_append,
    List.map_eq_cons_iff]
  constructor
  · rintro ⟨c, name, htrim, hc, hname⟩
    obtain rfl := lowerLetter_eq_colon.mp hc
    exact ⟨name, htrim, by rw [hname, String.ofList_toList]⟩
  · rintro ⟨name, htrim, rfl⟩
    exact ⟨':', name, htrim, rfl, String.toList_ofList.symm⟩

/-- The commands by name. -/
def named : List (String × Command) :=
  [("quit", .quit), ("reset", .reset), ("list", .list), ("ast", .ast), ("run", .run), ("help", .help)]

theorem isCommand_iff_command? (word : String) {line : String} {k : Command} (hk : (word, k) ∈ named) :
    isCommand (":" ++ word) line ↔ command? line = some k := by
  rw [isCommand_iff]
  unfold command?
  split
  · next name htrim =>
    simp only [htrim, List.cons.injEq, true_and, exists_eq_left', Option.some.injEq]
    generalize String.ofList (name.map lowerLetter) = given
    simp only [named, List.mem_cons, Prod.mk.injEq, List.not_mem_nil, or_false] at hk
    rcases hk with ⟨rfl, rfl⟩ | ⟨rfl, rfl⟩ | ⟨rfl, rfl⟩ | ⟨rfl, rfl⟩ | ⟨rfl, rfl⟩ | ⟨rfl, rfl⟩ <;>
      split <;> simp_all
  · next hcolon => exact ⟨fun ⟨name, htrim, _⟩ => absurd htrim (hcolon name), nofun⟩

theorem isCommand_reset_iff {line : String} : isCommand ":reset" line ↔ command? line = some .reset :=
  isCommand_iff_command? "reset" (by decide)

/-! ### The buffer -/

/-- What a line does to the program's lines. -/
theorem handle_lines (s : Session) (line : String) :
    (s.handle line).1.lines =
      if isProgramLine line then s.lines ++ [line]
      else if isCommand ":reset" line then [] else s.lines := by
  simp only [isProgramLine_iff, isCommand_reset_iff]
  unfold handle
  cases command? line with
  | none => rfl
  | some k => cases k <;> rfl

theorem sinceReset_snoc (lines : List String) (line : String) :
    sinceReset (lines ++ [line]) = if isCommand ":reset" line then [] else sinceReset lines ++ [line] := by
  unfold sinceReset
  rw [List.reverse_append, List.reverse_singleton, List.singleton_append, List.takeWhile_cons]
  cases isCommand ":reset" line <;> simp

theorem not_isProgramLine_of_reset {line : String} (h : isCommand ":reset" line) : isProgramLine line = false := by
  rw [isCommand_reset_iff] at h
  rw [Bool.eq_false_iff, ne_eq, isProgramLine_iff, h]
  nofun

/-- A session holds the program's lines since the last reset. -/
theorem ofLines_lines (lines : List String) :
    (ofLines lines).lines = (sinceReset lines).filter isProgramLine := by
  induction lines using List.reverseRecOn with
  | nil => rfl
  | append_singleton lines line ih =>
    have hstep : ofLines (lines ++ [line]) = ((ofLines lines).handle line).1 := by
      simp [ofLines]
    rw [hstep, handle_lines, ih, sinceReset_snoc]
    by_cases hreset : isCommand ":reset" line
    · simp [hreset, not_isProgramLine_of_reset hreset]
    · by_cases hprogram : isProgramLine line
      · simp [hreset, hprogram]
      · simp [hreset, hprogram]

theorem source_eq_empty {s : Session} : s.source = "" ↔ s.lines = [] := by
  unfold source Text.unlines
  cases s.lines with
  | nil => simp
  | cons line rest => simp

theorem prompt_eq (s : Session) : s.prompt = if s.source = "" then "tran> " else "....> " := by
  simp only [prompt, List.isEmpty_iff, source_eq_empty]

/-! ### Runs -/

/-- The line that says how a run failed, if it did. -/
def errorLine : Option RuntimeError → String
  | none => ""
  | some e => e.text ++ "\n"

/-- What a text shows that is run with a console that keeps the records until the end: a line for each of
them, and one that says what is wrong. -/
def transcript (source : String) (threshold : Level) (bound : Nat) : Option String :=
  match (Program.load file source.toList).1 with
  | .error failure => some (failure.text ++ "\n")
  | .ok p => (p.run threshold bound 1).map fun o => Text.unlines o.records ++ errorLine o.error

/-- What a text shows that is run with a console that prints the records on the way. -/
def broadcast (source : String) (threshold : Level) (stride looks : Nat) : Option String :=
  match (Program.load file source.toList).1 with
  | .error failure => some (failure.text ++ "\n")
  | .ok p => ((Machine.start threshold).streamed (.ofProgram p) stride looks).map fun (text, error) =>
      text ++ errorLine error

/-- What is printed after a line. -/
def printed (s : Session) (line : String) (threshold : Level) (bound : Nat) : Option String :=
  ((s.handle line).2.2.complete threshold bound).map Report.text

theorem outcome_text (o : Outcome) : o.text = Text.unlines o.records ++ errorLine o.error := by
  rw [Outcome.text, Text.unlines_append]
  congr 1
  cases o.error with
  | none => rfl
  | some e => simp [Text.unlines, errorLine]

/-- A single run leaves its outcome. -/
theorem run_once (p : Program) (threshold : Level) (bound : Nat) :
    (p.run threshold bound 1).map (fun o => (o.records, o.error)) =
      (Machine.start threshold).kept (.ofProgram p) bound := by
  unfold Program.run Program.run.go Machine.kept
  rw [show (Machine.start threshold).restart = Machine.start threshold from rfl]
  obtain ⟨m, halt⟩ := (Machine.start threshold).run (.ofProgram p) bound
  cases halt with
  | none => rfl
  | some h => rfl

/-- The transcript of a program that was read, by what its run leaves. -/
theorem transcript_of_load {source : String} {p : Program}
    (hload : (Program.load file source.toList).1 = .ok p) (threshold : Level) (bound : Nat) :
    transcript source threshold bound = ((Machine.start threshold).kept (.ofProgram p) bound).map
      fun (records, error) => Text.unlines records ++ errorLine error := by
  rw [transcript, hload, ← run_once, Option.map_map]
  rfl

/-- What a text shows does not depend on what is logged. -/
theorem transcript_threshold (source : String) (threshold threshold' : Level) (bound : Nat) :
    transcript source threshold bound = transcript source threshold' bound := by
  cases hload : (Program.load file source.toList).1 with
  | error failure => rw [transcript, transcript, hload]
  | ok p => rw [transcript_of_load hload, transcript_of_load hload, Machine.kept_start]

/-- More steps change nothing once a text has shown all. -/
theorem transcript_mono {source text : String} {threshold : Level} {bound bound' : Nat}
    (h : transcript source threshold bound = some text) (hle : bound ≤ bound') :
    transcript source threshold bound' = some text := by
  cases hload : (Program.load file source.toList).1 with
  | error failure =>
    rw [transcript, hload] at h ⊢
    exact h
  | ok p =>
    rw [transcript_of_load hload] at h ⊢
    obtain ⟨left, hkept, rfl⟩ := Option.map_eq_some_iff.mp h
    rw [Machine.kept_mono hkept hle, Option.map_some]

/-- Both consoles show the same. -/
theorem broadcast_eq_transcript (source : String) (threshold : Level) (stride looks : Nat) :
    broadcast source threshold stride looks = transcript source threshold (looks * stride) := by
  cases hload : (Program.load file source.toList).1 with
  | error failure => rw [broadcast, transcript, hload]
  | ok p =>
    rw [transcript_of_load hload, broadcast, hload]
    show Option.map _ _ = _
    rw [Machine.streamed_eq_kept, Option.map_map]
    rfl

theorem printed_of_run {line : String} (hrun : isCommand ":run" line) (s : Session) (threshold : Level)
    (bound : Nat) : s.printed line threshold bound = transcript s.source threshold bound := by
  have hcommand : command? line = some .run := (isCommand_iff_command? "run" (by decide)).mp hrun
  rw [printed, handle, hcommand, transcript]
  show ((Upshot.run file s.source.toList).complete threshold bound).map Report.text = _
  rw [Upshot.run]
  obtain ⟨result, log⟩ := Program.load file s.source.toList
  cases result with
  | error failure => rfl
  | ok p =>
    show Option.map _ (Option.map _ _) = Option.map _ _
    rw [Option.map_map]
    congr 1
    funext o
    show "" ++ o.text = _
    rw [String.empty_append, outcome_text]

/-- A session is a faithful buffer, whatever lines it took. Its text is that of the program's lines since
the last reset. A line that neither resets nor is one of the program's changes neither the text nor the
prompt. A line that runs prints the transcript of the text: the same whatever is logged, with either
console, and in however many steps. -/
theorem ofLines_faithful (lines : List String) :
    (ofLines lines).source = Text.unlines ((sinceReset lines).filter isProgramLine) ∧
    ((ofLines lines).prompt = if (ofLines lines).source = "" then "tran> " else "....> ") ∧
    (∀ line, ¬ isProgramLine line → ¬ isCommand ":reset" line →
      ((ofLines lines).handle line).1.source = (ofLines lines).source ∧
        ((ofLines lines).handle line).1.prompt = (ofLines lines).prompt) ∧
    ∀ line, isCommand ":run" line → ∀ threshold threshold' : Level,
      (∀ bound, (ofLines lines).printed line threshold bound =
        transcript (ofLines lines).source threshold' bound) ∧
      (∀ stride looks, (ofLines lines).printed line threshold (looks * stride) =
        broadcast (ofLines lines).source threshold' stride looks) ∧
      ∀ bound bound' text, (ofLines lines).printed line threshold bound = some text → bound ≤ bound' →
        (ofLines lines).printed line threshold bound' = some text := by
  refine ⟨congrArg Text.unlines (ofLines_lines lines), prompt_eq _, fun line hprogram hreset => ?_,
    fun line hrun threshold threshold' => ⟨fun bound => ?_, fun stride looks => ?_, ?_⟩⟩
  · have hlines : ((ofLines lines).handle line).1.lines = (ofLines lines).lines := by
      rw [handle_lines, if_neg hprogram, if_neg hreset]
    exact ⟨congrArg Text.unlines hlines, by rw [prompt, prompt, hlines]⟩
  · rw [printed_of_run hrun, transcript_threshold _ threshold threshold']
  · rw [printed_of_run hrun, broadcast_eq_transcript, transcript_threshold _ threshold threshold']
  · intro bound bound' text hprinted hle
    rw [printed_of_run hrun] at hprinted ⊢
    exact transcript_mono hprinted hle

/-- A program that writes and then fails, after one that could not be read. -/
def halfway : List String :=
  ["junk", ":run", " :Reset", "class a", "\tshared start()", "\t\tconsole.write(\"x\", 1)", ":list",
    "\t\tconsole.write(b)"]

theorem ofLines_faithful_halfway :
    (¬ isProgramLine ":list" ∧ ¬ isCommand ":reset" ":list" ∧
      ((ofLines halfway).handle ":list").1.prompt = "....> ") ∧
    isCommand ":run" ":rUn " ∧
      (ofLines halfway).printed ":rUn " .trace 60 =
        some "x1.0\nunresolved variable: no variable named b. <repl>:4:3-4:18\n" := by
  obtain ⟨-, -, hother, hrun⟩ := ofLines_faithful halfway
  refine ⟨⟨by decide, by decide, ?_⟩, by decide, ?_⟩
  · rw [(hother ":list" (by decide) (by decide)).2]
    decide
  · rw [(hrun ":rUn " (by decide) .trace .critical).1 60]
    decide +kernel

end Session

end Offside
