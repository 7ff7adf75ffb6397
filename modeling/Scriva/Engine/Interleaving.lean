import Scriva.Engine.Directory

/-!
# Procedures that take turns

Procedures share the world and take their steps in any order.  `Guards` says
that a condition on the world is kept by every step of a procedure when the
condition holds at each of its turns, whatever has happened in between.  If all
procedures guard a condition, it holds all the time.
-/

namespace Scriva.Engine.Interleaving

open Directory

variable {N α β : Type}

/-! ## Conditions kept at every turn -/

/-- Every step of a procedure keeps a condition. -/
def Guards (kept : World N → Prop) : Proc N α → Prop
  | .done _ => True
  | .step change rest => ∀ w, kept w → kept (change w) ∧ Guards kept (rest w)

section Rules

variable {kept : World N → Prop} {p : Proc N α} {next : α → Proc N β}

theorem guards_done (result : Except Error α) : Guards kept (.done result : Proc N α) :=
  trivial

theorem Guards.bind (first : Guards kept p) (later : ∀ value, Guards kept (next value)) :
    Guards kept (p >>= next) := by
  change Guards kept (p.bind next)
  induction p with
  | done result =>
    cases result with
    | ok value => exact later value
    | error e => exact trivial
  | step change rest ih =>
    intro w holds
    exact ⟨(first w holds).1, ih w (first w holds).2⟩

/-- What is read is known to come from a world with the condition. -/
theorem guards_read {f : World N → α} (later : ∀ w, kept w → Guards kept (next (f w))) :
    Guards kept (Proc.read f >>= next) :=
  fun w holds => ⟨holds, later w holds⟩

theorem guards_modify {f : Collection N → Collection N}
    (changes : ∀ w, kept w → kept { w with col := f w.col }) :
    Guards kept (Proc.modify f : Proc N Unit) :=
  fun w holds => ⟨changes w holds, trivial⟩

theorem guards_perform {step : DiskStep} (changes : ∀ w, kept w → kept (w.tryPerform step)) :
    Guards kept (Proc.perform step : Proc N Unit) := by
  intro w holds
  refine ⟨changes w holds, ?_⟩
  dsimp only
  split_ifs
  · exact trivial
  · exact trivial

theorem guards_access (changes : ∀ w, kept w → kept w.tryAccess) :
    Guards kept (Proc.access : Proc N Unit) := by
  intro w holds
  refine ⟨changes w holds, ?_⟩
  dsimp only
  split_ifs
  · exact trivial
  · exact trivial

theorem Guards.attempt (inside : Guards kept p) : Guards kept p.attempt := by
  induction p with
  | done result => exact trivial
  | step change rest ih =>
    intro w holds
    exact ⟨(inside w holds).1, ih w (inside w holds).2⟩

theorem Guards.onError (inside : Guards kept p) {cleanup : Proc N Unit}
    (cleaned : Guards kept cleanup) : Guards kept (p.onError cleanup) := by
  induction p with
  | done result =>
    cases result with
    | ok value => exact trivial
    | error e => exact cleaned.attempt.bind fun _ => trivial
  | step change rest ih =>
    intro w holds
    exact ⟨(inside w holds).1, ih w (inside w holds).2⟩

theorem Guards.run (inside : Guards kept p) {w : World N} (holds : kept w) :
    kept (p.run w).2 := by
  induction p generalizing w with
  | done result => exact holds
  | step change rest ih =>
    exact ih w (inside w holds).2 (inside w holds).1

theorem Guards.locked (inside : Guards kept p) : Guards kept p.locked :=
  fun _ holds => ⟨inside.run holds, trivial⟩

end Rules

/-! ## Turns -/

/-- One of the procedures takes its next step. -/
inductive Turn : World N × List (Proc N α) → World N × List (Proc N α) → Prop where
  | take (w : World N) (before after : List (Proc N α)) (change : World N → World N)
      (rest : World N → Proc N α) :
      Turn (w, before ++ .step change rest :: after) (change w, before ++ rest w :: after)

/-- If all procedures guard a condition, a turn keeps it, and they go on
guarding it. -/
theorem Turn.guards {kept : World N → Prop} {s s' : World N × List (Proc N α)}
    (turn : Turn s s') (holds : kept s.1) (guarded : ∀ p ∈ s.2, Guards kept p) :
    kept s'.1 ∧ ∀ p ∈ s'.2, Guards kept p := by
  obtain ⟨w, before, after, change, rest⟩ := turn
  obtain ⟨changed, later⟩ := guarded (.step change rest) (by simp) w holds
  refine ⟨changed, fun p member => ?_⟩
  rcases List.mem_append.mp member with early | late
  · exact guarded p (List.mem_append_left _ early)
  · rcases List.mem_cons.mp late with rfl | late
    · exact later
    · exact guarded p (List.mem_append_right _ (.tail _ late))

end Scriva.Engine.Interleaving
