import Mathlib.Logic.Function.Iterate
import Offside.Proofs.Machine.Evaluation

/-! What a machine comes to, step after step, beside the result of an evaluation. -/
namespace Offside

open Exec

section Advance
variable {c : Catalog} {n k : Nat} {r : EStateM.Result Halt Machine Unit}

/-- A step, if there is one to take. -/
def advance (c : Catalog) : EStateM.Result Halt Machine Unit → EStateM.Result Halt Machine Unit
  | .ok () m => (step c).run m
  | .error h m => .error h m

theorem advance_error (h : Halt) (m : Machine) : (advance c)^[k] (.error h m) = .error h m :=
  Function.iterate_fixed rfl k

theorem advance_next {m : Machine} (hr : (advance c)^[n] r = .ok () m) : (advance c)^[n + 1] r = (step c).run m := by
  rw [Function.iterate_succ_apply', hr]
  rfl

/-- A run that goes on after more steps goes on after fewer. -/
theorem advance_ok_of_add {m : Machine} (hok : (advance c)^[n + k] r = .ok () m) :
    ∃ m', (advance c)^[n] r = .ok () m' := by
  cases hr : (advance c)^[n] r with
  | ok u m' => exact ⟨m', rfl⟩
  | error h m' =>
    rw [Nat.add_comm, Function.iterate_add_apply, hr, advance_error] at hok
    cases hok

/-- A run that comes to an end comes to one end. -/
theorem advance_error_unique {h h' : Halt} {m m' : Machine} (hn : (advance c)^[n] r = .error h m)
    (hk : (advance c)^[k] r = .error h' m') : h = h' ∧ m = m' := by
  have hn' : (advance c)^[k + n] r = .error h m := by
    rw [Function.iterate_add_apply, hn, advance_error]
  have hk' : (advance c)^[n + k] r = .error h' m' := by
    rw [Function.iterate_add_apply, hk, advance_error]
  rw [Nat.add_comm, hn'] at hk'
  cases hk'
  exact ⟨rfl, rfl⟩

end Advance

/-! ### Matching -/

/-- A machine comes to what an evaluation comes to: where that has a result, the machine gets to a
state that is `done` with it; where it halts, so does the machine, at the place of the halt or else
at `base`; where its rounds are exhausted, the machine goes on for `n` steps. -/
def Matches {α : Type} (c : Catalog) (n : Nat) (base : Option Span)
    (done : α → World → EStateM.Result Halt Machine Unit → Prop)
    (r : EStateM.Result Halt Machine Unit) :
    EStateM.Result Stop World α → Prop
  | .ok a w => ∃ k, done a w ((advance c)^[k] r)
  | .error (.halt h place) w =>
    ∃ k task stack, (advance c)^[k] r = .error h (w.machine (place.or base) task stack)
  | .error .exhausted _ => ∃ m, (advance c)^[n] r = .ok () m

namespace Matches

variable {α β : Type} {c : Catalog} {n k : Nat} {base here : Option Span}
    {r : EStateM.Result Halt Machine Unit}
  {task : Task} {stack : List Pending} {w : World}
    {done : α → World → EStateM.Result Halt Machine Unit → Prop}

theorem of_done {a : α} (h : done a w r) : Matches c n base done r (.ok a w) := ⟨0, h⟩

section Steps
variable {res : EStateM.Result Stop World α} {m : Machine}

theorem advances (h : Matches c n base done ((advance c)^[k] r) res) :
    Matches c n base done r res := by
  cases res with
  | ok a w =>
    obtain ⟨j, hj⟩ := h
    refine ⟨j + k, ?_⟩
    rwa [Function.iterate_add_apply]
  | error stop w =>
    cases stop with
    | exhausted =>
      obtain ⟨m, hm⟩ := h
      rw [← Function.iterate_add_apply] at hm
      exact advance_ok_of_add hm
    | halt reason place =>
      obtain ⟨j, task, stack, hj⟩ := h
      refine ⟨j + k, task, stack, ?_⟩
      rwa [Function.iterate_add_apply]

/-- A step is good for a round. -/
theorem step (h : Matches c n base done ((Exec.step c).run m) res) :
    Matches c (n + 1) base done (.ok () m) res := by
  cases res with
  | ok a w =>
    obtain ⟨j, hj⟩ := h
    exact ⟨j + 1, hj⟩
  | error stop w =>
    cases stop with
    | exhausted => exact h
    | halt reason place =>
      obtain ⟨j, task, stack, hj⟩ := h
      exact ⟨j + 1, task, stack, hj⟩

/-- A step need not be good for one. -/
theorem free (h : Matches c n base done ((Exec.step c).run m) res) :
    Matches c n base done (.ok () m) res :=
  advances (k := 1) h

theorem resume {p : Pending}
    (h : Matches c n base done ((Exec.resume c p).run (w.machine here (.run []) stack)) res) :
    Matches c n base done (.ok () (w.machine here (.run []) (p :: stack))) res := free h

theorem deliver {p : Pending} {s : Slot}
    (h : Matches c n base done ((Exec.deliver c s p).run (w.machine here (.value s) stack)) res) :
    Matches c n base done (.ok () (w.machine here (.value s) (p :: stack))) res := free h

theorem deliverAll {p : Pending} {slots : List Slot}
    (h : Matches c n base done
      ((Exec.deliverAll slots p).run (w.machine here (.values slots) stack)) res) :
    Matches c n base done (.ok () (w.machine here (.values slots) (p :: stack))) res := free h

theorem moveTo {x : Exec Unit} {span : Option Span}
    (h : Matches c n base done (x.run (w.machine span task stack)) res) :
    Matches c n base done ((Exec.moveTo span >>= fun _ => x).run (w.machine here task stack))
      res := h

theorem push {x : Exec Unit} {p : Pending}
    (h : Matches c n base done (x.run (w.machine here task (p :: stack))) res) :
    Matches c n base done ((Exec.push p >>= fun _ => x).run (w.machine here task stack)) res := h

end Steps

theorem bind {mid : β → World → EStateM.Result Halt Machine Unit → Prop} {x : Eval β}
    {f : β → Eval α}
    (hx : Matches c n base mid r (x w))
    (hf : ∀ b w' r', x w = .ok b w' → mid b w' r' → Matches c n base done r' (f b w')) :
    Matches c n base done r ((x >>= f) w) := by
  show Matches c n base done r (EStateM.bind x f w)
  unfold EStateM.bind
  cases hres : x w with
  | ok b w' =>
    rw [hres] at hx
    obtain ⟨k, hk⟩ := hx
    exact advances (hf b w' _ hres hk)
  | error stop w' =>
    rw [hres] at hx
    cases stop with
    | exhausted => exact hx
    | halt reason place => exact hx

/-- What halts within a statement halts in a machine that executes it. -/
theorem within {span : Span} {x : Eval α} (hx : Matches c n (some span) done r (x w)) :
    Matches c n base done r (Eval.within span x w) := by
  unfold Eval.within
  cases hres : x w with
  | ok a w' => rwa [hres] at hx
  | error stop w' =>
    rw [hres] at hx
    cases stop with
    | exhausted => exact hx
    | halt reason place =>
      obtain ⟨k, task, stack, hk⟩ := hx
      cases place with
      | none => exact ⟨k, task, stack, hk⟩
      | some inner => exact ⟨k, task, stack, hk⟩

/-- An action that goes on does so wherever it is. -/
theorem act_of_ok {x : Exec β} {f : β → Exec Unit} {g : β → Eval α} {b : β} {w' : World}
    (hx : Uniform x)
    (hon : x.on w = .ok b w')
    (h : Matches c n base done ((f b).run (w'.machine here task stack)) (g b w')) :
    Matches c n base done ((x >>= f).run (w.machine here task stack)) ((Eval.act x >>= g) w) := by
  have hact : (Eval.act x >>= g) w = g b w' := by
    show EStateM.bind (Eval.act x) g w = _
    unfold EStateM.bind Eval.act
    rw [hon]
  rw [hact, hx.run_bind, hon]
  exact h

/-- An action that halts does so at the statement that is executed. -/
theorem act {x : Exec β} {f : β → Exec Unit} {g : β → Eval α} (hx : Uniform x)
    (h : ∀ b w', x.on w = .ok b w' →
      Matches c n here done ((f b).run (w'.machine here task stack)) (g b w')) :
    Matches c n here done ((x >>= f).run (w.machine here task stack)) ((Eval.act x >>= g) w) := by
  cases hon : x.on w with
  | ok b w' => exact act_of_ok hx hon (h b w' hon)
  | error reason w' =>
    have hact : (Eval.act x >>= g) w = .error (.halt reason none) w' := by
      show EStateM.bind (Eval.act x) g w = _
      unfold EStateM.bind Eval.act
      rw [hon]
    rw [hact, hx.run_bind, hon]
    exact ⟨0, task, stack, rfl⟩

/-- An action that halts, if at all, at the statement that is executed. -/
theorem act_or {x : Exec β} {f : β → Exec Unit} {g : β → Eval α} (hx : Uniform x)
    (hready : here = base ∨ ∃ b w', x.on w = .ok b w')
    (h : ∀ b w', x.on w = .ok b w' →
      Matches c n base done ((f b).run (w'.machine here task stack)) (g b w')) :
    Matches c n base done ((x >>= f).run (w.machine here task stack)) ((Eval.act x >>= g) w) := by
  rcases hready with rfl | ⟨b, w', hon⟩
  · exact act hx h
  · exact act_of_ok hx hon (h b w' hon)

/-- The last action of an evaluation. -/
theorem act_last {x : Exec α} {f : α → Exec Unit} (hx : Uniform x)
    (h : ∀ a w', x.on w = .ok a w' → done a w' ((f a).run (w'.machine here task stack))) :
    Matches c n here done ((x >>= f).run (w.machine here task stack)) (Eval.act x w) := by
  have hlast : Eval.act x = Eval.act x >>= pure := (bind_pure _).symm
  rw [hlast]
  exact act hx fun a w' hon => of_done (h a w' hon)

theorem fault {f : Fault} :
    Matches c n here done ((Exec.fault f : Exec Unit).run (w.machine here task stack))
      (Eval.act (Exec.fault f) w) :=
  ⟨0, task, stack, rfl⟩

theorem stuck :
    Matches c n here done ((Exec.stuck : Exec Unit).run (w.machine here task stack))
      (Eval.act Exec.stuck w) :=
  ⟨0, task, stack, rfl⟩

/-- An evaluation has a result if machines come to different ends after it, within as many steps as it has
rounds. -/
theorem eq_ok {done' : α → World → EStateM.Result Halt Machine Unit → Prop} {base' : Option Span}
    {r' : EStateM.Result Halt Machine Unit} {res : EStateM.Result Stop World α} {h h' : Halt} {m m' : Machine}
    (hr : Matches c n base done r res) (hr' : Matches c n base' done' r' res)
    (hend : (advance c)^[n] r = .error h m) (hend' : (advance c)^[n] r' = .error h' m') (hne : h ≠ h') :
    ∃ a w', res = .ok a w' := by
  cases res with
  | ok a w' => exact ⟨a, w', rfl⟩
  | error stop w' =>
    cases stop with
    | exhausted =>
      obtain ⟨m₁, hm₁⟩ := hr
      cases hend.symm.trans hm₁
    | halt reason place =>
      obtain ⟨_, _, _, hhalt⟩ := hr
      obtain ⟨_, _, _, hhalt'⟩ := hr'
      exact absurd ((advance_error_unique hend hhalt).1.trans (advance_error_unique hend' hhalt').1.symm) hne

end Matches

end Offside
