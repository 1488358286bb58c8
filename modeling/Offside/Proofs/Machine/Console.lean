import Offside.Proofs.Machine.Framing
import Offside.Text.Basic

/-! The console and the log of a run.

No action reads what was written or logged before. So two machines that differ in nothing else take the
same steps, and each step writes the same records on both. What a run shows is therefore the same
whatever is logged, and the same on a console that keeps the records until the end as on one that prints
and forgets them on the way (`Machine.streamed_eq_kept`). -/
namespace Offside

/-- The machine without what was written and logged. -/
def Machine.muted (m : Machine) : Machine := { m with records := [], threshold := .critical, log := [] }

/-- Machines that differ in what was written and logged before, but wrote the same since they had these
records. -/
structure Machine.Beside (before before' : List String) (m n : Machine) : Prop where
  muted : m.muted = n.muted
  written : ∃ written, m.records = written ++ before ∧ n.records = written ++ before'

namespace Machine.Beside

variable {before before' : List String} {m n : Machine}

theorem noted_muted (level : Level) (message : Unit → String) (m : Machine) :
    (m.noted level message).muted = m.muted ∧ (m.noted level message).records = m.records := by
  unfold noted
  split <;> exact ⟨rfl, rfl⟩

theorem congr {α : Type} (f : Machine → α) (hf : ∀ m, f m = f m.muted) (h : Beside before before' m n) :
    f m = f n := by
  rw [hf m, hf n, h.muted]

/-- A change to the rest of the machine. -/
theorem change (f : Machine → Machine) (hf : ∀ m, (f m).muted = (f m.muted).muted)
    (hrecords : ∀ m, (f m).records = m.records) (h : Beside before before' m n) :
    Beside before before' (f m) (f n) := by
  refine ⟨by rw [hf m, hf n, h.muted], ?_⟩
  rw [hrecords m, hrecords n]
  exact h.written

theorem twins (before before' : List String) : Twins (Beside before before') where
  heap h := h.congr heap fun _ => rfl
  frame h := h.congr frame fun _ => rfl
  here h := h.congr here fun _ => rfl
  task h := h.congr task fun _ => rfl
  setHeap heap h := h.change (fun m => { m with heap }) (fun _ => rfl) fun _ => rfl
  setFrame frame h := h.change (fun m => { m with frame }) (fun _ => rfl) fun _ => rfl
  setHere here h := h.change (fun m => { m with here }) (fun _ => rfl) fun _ => rfl
  setTask task h := h.change (fun m => { m with task }) (fun _ => rfl) fun _ => rfl
  push p h := h.change (fun m => { m with stack := p :: m.stack }) (fun _ => rfl) fun _ => rfl
  write record h := by
    obtain ⟨written, hm, hn⟩ := h.written
    exact ⟨h.muted, record :: written, congrArg _ hm, congrArg _ hn⟩
  note level message h := by
    refine h.change _ (fun m => ?_) fun m => (noted_muted level message m).2
    rw [(noted_muted level message m).1, (noted_muted level message m.muted).1]
    rfl

theorem pop (h : Beside before before' m n) :
    Exec.Together (Beside before before') (Exec.pop.run m) (Exec.pop.run n) := by
  have hstack := h.congr stack fun _ => rfl
  obtain ⟨heap, frame, here, task, stack, records, threshold, log⟩ := m
  obtain ⟨heap', frame', here', task', stack', records', threshold', log'⟩ := n
  obtain rfl : stack = stack' := hstack
  cases stack with
  | nil => exact .error h
  | cons p rest => exact .ok (h.change (fun m => { m with stack := rest }) (fun _ => rfl) fun _ => rfl)

end Machine.Beside

theorem Text.unlines_append (first second : List String) :
    unlines (first ++ second) = unlines first ++ unlines second := by
  simp [unlines]

/-! ### Runs -/

namespace Machine

variable {c : Catalog}

/-- A run that is over stays so. -/
theorem run_mono {bound bound' : Nat} {m m' : Machine} {h : Halt} (hrun : m.run c bound = (m', some h))
    (hle : bound ≤ bound') : m.run c bound' = (m', some h) := by
  obtain ⟨more, rfl⟩ := Nat.exists_eq_add_of_le hle
  rw [run_add, hrun]

/-- Machines that differ in what was written and logged before run alike, and write the same. -/
theorem run_beside (c : Catalog) (bound : Nat) {before before' : List String} {m n : Machine}
    (h : Beside before before' m n) :
    (m.run c bound).2 = (n.run c bound).2 ∧ Beside before before' (m.run c bound).1 (n.run c bound).1 := by
  induction bound generalizing m n with
  | zero => exact ⟨rfl, h⟩
  | succ bound ih =>
    have hstep := Exec.step_respects (Beside.twins before before') (c := c) h fun _ => h.pop
    rw [run, run]
    generalize (Exec.step c).run m = r at hstep ⊢
    generalize (Exec.step c).run n = r' at hstep ⊢
    cases hstep with
    | ok h' => exact ih h'
    | error h' => exact ⟨rfl, h'⟩

/-! ### Two consoles -/

/-- What a run leaves for a console that keeps the records until the end: all of them, and the error. -/
def kept (c : Catalog) (bound : Nat) (m : Machine) : Option (List String × Option RuntimeError) :=
  match m.run c bound with
  | (_, none) => none
  | (m', some h) => some (m'.records.reverse, m'.error? h)

/-- What a run prints on a console that looks at the machine after every `stride` steps, prints the
records that it finds there, a line each, and forgets them. -/
def streamed (c : Catalog) (stride : Nat) : (looks : Nat) → Machine → Option (String × Option RuntimeError)
  | 0, _ => none
  | looks + 1, m =>
    match m.run c stride with
    | (m', some h) => some (Text.unlines m'.records.reverse, m'.error? h)
    | (m', none) =>
      (streamed c stride looks { m' with records := [], log := [] }).map fun (text, error) =>
        (Text.unlines m'.records.reverse ++ text, error)

/-- What was written and logged before a run adds to the records that it leaves, and to nothing else. -/
theorem kept_eq (c : Catalog) (bound : Nat) {m n : Machine} (hsame : m.muted = n.muted) (hempty : n.records = []) :
    m.kept c bound = (n.kept c bound).map fun (records, error) => (m.records.reverse ++ records, error) := by
  have hbeside : Beside m.records [] m n := ⟨hsame, [], rfl, hempty⟩
  obtain ⟨hhalt, hafter⟩ := run_beside c bound hbeside
  unfold kept
  generalize m.run c bound = r at *
  generalize n.run c bound = r' at *
  obtain ⟨m', halt⟩ := r
  obtain ⟨n', halt'⟩ := r'
  obtain rfl : halt = halt' := hhalt
  cases halt with
  | none => rfl
  | some h =>
    have herror : m'.error? h = n'.error? h := hafter.congr (fun m => m.error? h) fun _ => by cases h <;> rfl
    obtain ⟨written, hm, hn⟩ := hafter.written
    have hrecords : m'.records.reverse = m.records.reverse ++ n'.records.reverse := by
      rw [show m'.records = _ from hm, show n'.records = _ from hn, List.append_nil, List.reverse_append]
    show some (m'.records.reverse, m'.error? h) = some (m.records.reverse ++ n'.records.reverse, n'.error? h)
    rw [hrecords, herror]

theorem kept_mono {bound bound' : Nat} {m : Machine} {left : List String × Option RuntimeError}
    (hkept : m.kept c bound = some left) (hle : bound ≤ bound') : m.kept c bound' = some left := by
  unfold kept at hkept ⊢
  cases hrun : m.run c bound with
  | mk m' halt =>
    rw [hrun] at hkept
    cases halt with
    | none => cases hkept
    | some h =>
      rw [run_mono hrun hle]
      exact hkept

/-- Whatever is logged, a program that starts leaves the same records and error. -/
theorem kept_start (c : Catalog) (bound : Nat) (threshold threshold' : Level) :
    (start threshold).kept c bound = (start threshold').kept c bound := by
  have hsame : (start threshold).muted = (start threshold').muted := rfl
  rw [kept_eq c bound hsame rfl]
  cases (start threshold').kept c bound <;> rfl

/-- Both consoles show the same, however often the second one looks. -/
theorem streamed_eq_kept (c : Catalog) (stride looks : Nat) (m : Machine) :
    m.streamed c stride looks =
      (m.kept c (looks * stride)).map fun (records, error) => (Text.unlines records, error) := by
  induction looks generalizing m with
  | zero => rw [Nat.zero_mul]; rfl
  | succ looks ih =>
    rw [Nat.succ_mul, Nat.add_comm (looks * stride), streamed, kept, run_add]
    cases m.run c stride with
    | mk m' halt =>
      cases halt with
      | some h => rfl
      | none =>
        have hsame : m'.muted = ({ m' with records := [], log := [] } : Machine).muted := rfl
        show Option.map _ (streamed c stride looks _) = Option.map _ (m'.kept c (looks * stride))
        rw [ih, kept_eq c (looks * stride) hsame rfl]
        cases kept c (looks * stride) { m' with records := [], log := [] } with
        | none => rfl
        | some shown => exact congrArg (fun text => some (text, shown.2)) (Text.unlines_append _ _).symm

end Machine

end Offside
