import Scriva.Engine.Directory

/-!
# Rules for accepted and failing procedures

`Yields` says what holds after a procedure that has not failed, whatever
failures of the directory were to come, `Fails` which errors a procedure may end
with in any world, and `Preserves` what it keeps whether it fails or not.
`Ends` says both how a procedure succeeds and how it fails, from a world in which
no step of the directory fails.  The rules follow the way procedures are
composed.
-/

namespace Scriva.Engine.Outcome

open Directory

variable {N α β : Type}

/-- If a procedure ends without an error, its result and the world after it
satisfy a condition. -/
def Yields (p : Proc N α) (w : World N) (post : α → World N → Prop) : Prop :=
  ∀ value w', p.run w = (.ok value, w') → post value w'

variable {outcome : Except Error α} {f : Collection N → Collection N} {step : DiskStep}

section Rules

variable {w : World N} {p : Proc N α} {next : α → Proc N β} {post : β → World N → Prop}
  {mid : α → World N → Prop}

theorem Yields.bind (first : Yields p w mid)
    (later : ∀ value w', mid value w' → Yields (next value) w' post) :
    Yields (p >>= next) w post := by
  intro value w' ran
  rw [Proc.run_bind] at ran
  rcases shape : p.run w with ⟨outcome, middle⟩
  rw [shape] at ran
  cases outcome with
  | error e => cases ran
  | ok reached => exact later reached middle (first reached middle shape) value w' ran

theorem Yields.imp {weaker : α → World N → Prop} (yields : Yields p w mid)
    (implied : ∀ value w', mid value w' → weaker value w') : Yields p w weaker :=
  fun value w' ran => implied value w' (yields value w' ran)

theorem yields_pure {value : β} (holds : post value w) :
    Yields (pure value : Proc N β) w post := by
  rintro _ _ ⟨⟩
  exact holds

theorem yields_fail (e : Error) : Yields (Proc.fail e : Proc N β) w post := by
  rintro _ _ ⟨⟩

theorem yields_read {f : World N → α} (later : Yields (next (f w)) w post) :
    Yields (Proc.read f >>= next) w post := by
  intro value w' ran
  rw [Proc.run_bind_ok (Proc.run_read f w)] at ran
  exact later value w' ran

theorem yields_check (later : ∀ value, outcome = .ok value → Yields (next value) w post) :
    Yields (Proc.check outcome >>= next) w post := by
  intro value w' ran
  cases outcome with
  | error e => cases ran
  | ok checked => exact later checked rfl value w' ran

theorem yields_modify {next : Unit → Proc N β}
    (later : Yields (next ()) { w with col := f w.col } post) :
    Yields (Proc.modify f >>= next) w post := by
  intro value w' ran
  rw [Proc.run_bind_ok (Proc.run_modify f w)] at ran
  exact later value w' ran

theorem yields_locked (inside : Yields p w mid) : Yields p.locked w mid :=
  inside

/-- A step that succeeds has taken effect, whether or not a later one fails. -/
theorem yields_performed (step : DiskStep) (w : World N) :
    Yields (Proc.perform step : Proc N Unit) w fun _ w' =>
      ∃ fault, w' = { w.perform step with fault } := by
  intro value w' ran
  obtain ⟨col, disk, feed, trace, fault⟩ := w
  rcases fault with - | ⟨remaining, arrived⟩
  · cases ran
    exact ⟨none, rfl⟩
  · cases remaining with
    | zero => cases ran
    | succ remaining =>
      cases ran
      exact ⟨some (remaining, arrived), rfl⟩

theorem yields_accessed (w : World N) :
    Yields (Proc.access : Proc N Unit) w fun _ w' => ∃ fault, w' = { w with fault } := by
  intro value w' ran
  obtain ⟨col, disk, feed, trace, fault⟩ := w
  rcases fault with - | ⟨remaining, arrived⟩
  · cases ran
    exact ⟨none, rfl⟩
  · cases remaining with
    | zero => cases ran
    | succ remaining =>
      cases ran
      exact ⟨some (remaining, arrived), rfl⟩

theorem yields_perform {next : Unit → Proc N β}
    (later : ∀ fault, Yields (next ()) { w.perform step with fault } post) :
    Yields (Proc.perform step >>= next) w post := by
  refine (yields_performed step w).bind ?_
  rintro value w' ⟨fault, rfl⟩
  exact later fault

theorem yields_access {next : Unit → Proc N β}
    (later : ∀ fault, Yields (next ()) { w with fault } post) :
    Yields (Proc.access >>= next) w post := by
  refine (yields_accessed w).bind ?_
  rintro value w' ⟨fault, rfl⟩
  exact later fault

/-- An accepted procedure did not need its clean-up. -/
theorem Yields.onError {mid : α → World N → Prop} (inside : Yields p w mid)
    (cleanup : Proc N Unit) : Yields (p.onError cleanup) w mid := by
  intro value w' ran
  refine inside value w' ?_
  clear inside
  induction p generalizing w with
  | done result =>
    cases result with
    | ok found => exact ran
    | error e =>
      change (cleanup.attempt >>= fun _ => Proc.done (.error e)).run w = _ at ran
      rw [Proc.run_bind_ok (Proc.run_attempt cleanup w)] at ran
      cases ran
  | step change rest ih => exact ih w ran

end Rules

/-- Whatever error a procedure ends with, it satisfies a condition. -/
def Fails (p : Proc N α) (allowed : Error → Prop) : Prop :=
  ∀ w e w', p.run w = (.error e, w') → allowed e

variable {e : Error}

section Errors

variable {p : Proc N α} {next : α → Proc N β} {allowed : Error → Prop}

theorem Fails.bind (first : Fails p allowed) (later : ∀ value, Fails (next value) allowed) :
    Fails (p >>= next) allowed := by
  intro w e w' ran
  rw [Proc.run_bind] at ran
  rcases shape : p.run w with ⟨outcome, middle⟩
  rw [shape] at ran
  cases outcome with
  | error e =>
    cases ran
    exact first w e w' shape
  | ok value => exact later value middle e w' ran

/-- Procedures that always end with a value. -/
theorem fails_of_ok {f : World N → α} {after : World N → World N}
    (ends : ∀ w, p.run w = (.ok (f w), after w)) : Fails p allowed := by
  intro w e w' ran
  rw [ends] at ran
  cases ran

theorem fails_pure (value : α) : Fails (pure value : Proc N α) allowed :=
  fails_of_ok (Proc.run_pure value)

theorem fails_read (f : World N → α) : Fails (Proc.read f) allowed :=
  fails_of_ok (Proc.run_read f)

theorem fails_modify (f : Collection N → Collection N) :
    Fails (Proc.modify f : Proc N Unit) allowed :=
  fails_of_ok (Proc.run_modify f)

theorem fails_attempt (p : Proc N α) : Fails p.attempt allowed :=
  fails_of_ok (Proc.run_attempt p)

theorem fails_fail (holds : allowed e) : Fails (Proc.fail e : Proc N α) allowed := by
  rintro _ _ _ ⟨⟩
  exact holds

theorem fails_check (refused : ∀ e, outcome = .error e → allowed e) :
    Fails (Proc.check outcome : Proc N α) allowed := by
  intro w e w' ran
  exact refused e (Prod.mk.inj ran).1

theorem fails_perform (io : allowed .io) (step : DiskStep) :
    Fails (Proc.perform step : Proc N Unit) allowed := by
  intro w e w' ran
  rw [Proc.perform, Proc.run] at ran
  split_ifs at ran
  · cases ran
    exact io
  · cases ran

theorem fails_access (io : allowed .io) : Fails (Proc.access : Proc N Unit) allowed := by
  intro w e w' ran
  rw [Proc.access, Proc.run] at ran
  split_ifs at ran
  · cases ran
    exact io
  · cases ran

theorem Fails.onError (inside : Fails p allowed) (cleanup : Proc N Unit) :
    Fails (p.onError cleanup) allowed := by
  intro w e w' ran
  rcases shape : p.run w with ⟨outcome, middle⟩
  cases outcome with
  | error e =>
    rw [Proc.run_onError_error shape] at ran
    cases ran
    exact inside w e middle shape
  | ok value =>
    rw [Proc.run_onError_ok shape] at ran
    cases ran

end Errors

variable {value : α}

/-- A condition on the world that a procedure keeps, however it ends. -/
def Preserves (p : Proc N α) (kept : World N → Prop) : Prop :=
  ∀ w, kept w → kept (p.run w).2

section Kept

variable {p : Proc N α} {next : α → Proc N β} {kept : World N → Prop}

theorem Preserves.bind (first : Preserves p kept) (later : ∀ value, Preserves (next value) kept) :
    Preserves (p >>= next) kept := by
  intro w holds
  have middle := first w holds
  rw [Proc.run_bind]
  rcases shape : p.run w with ⟨outcome, w₁⟩
  rw [shape] at middle
  cases outcome with
  | error e => exact middle
  | ok value => exact later value w₁ middle

theorem preserves_done (result : Except Error α) :
    Preserves (.done result : Proc N α) kept :=
  fun _ holds => holds

theorem preserves_read (f : World N → α) : Preserves (Proc.read f) kept :=
  fun _ holds => holds

end Kept

/-- What holds after a procedure, with its result or with its error. -/
def Ends (p : Proc N α) (w : World N) (done : α → World N → Prop)
    (failed : Error → World N → Prop) : Prop :=
  match p.run w with
  | (.ok value, w') => done value w'
  | (.error e, w') => failed e w'

section Ends

variable {w : World N} {p : Proc N α} {next : α → Proc N β} {mid : α → World N → Prop}
  {done : β → World N → Prop} {failed : Error → World N → Prop}

theorem Ends.bind (first : Ends p w mid failed)
    (later : ∀ value w', mid value w' → Ends (next value) w' done failed) :
    Ends (p >>= next) w done failed := by
  rw [Ends] at first ⊢
  rw [Proc.run_bind]
  rcases shape : p.run w with ⟨outcome, middle⟩
  rw [shape] at first
  cases outcome with
  | error e => exact first
  | ok reached => exact later reached middle first

theorem Ends.imp {done' : α → World N → Prop} {failed' : Error → World N → Prop}
    (ends : Ends p w mid failed) (succeeds : ∀ value w', mid value w' → done' value w')
    (fails : ∀ e w', failed e w' → failed' e w') : Ends p w done' failed' := by
  rw [Ends] at ends ⊢
  rcases shape : p.run w with ⟨outcome, after⟩
  rw [shape] at ends
  cases outcome with
  | error e => exact fails e after ends
  | ok value => exact succeeds value after ends

variable {w' : World N}

theorem Ends.ok (ends : Ends p w mid failed) (ran : p.run w = (.ok value, w')) : mid value w' := by
  rw [Ends, ran] at ends
  exact ends

theorem Ends.error (ends : Ends p w mid failed) (ran : p.run w = (.error e, w')) : failed e w' := by
  rw [Ends, ran] at ends
  exact ends

end Ends

end Scriva.Engine.Outcome
