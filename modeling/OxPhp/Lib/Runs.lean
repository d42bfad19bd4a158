import Mathlib.Data.List.Induction

/-!
# Runs of a step function

What every step keeps holds after every run; what a step only keeps under a
condition holds after every run whose steps all meet it.  A step may note what it
does in a log.
-/

namespace Runs

variable {σ α : Type} (step : α → σ → Option σ)

/-- The steps one after the other; none if one of them cannot be taken. -/
def run : List α → σ → Option σ
  | [], s => some s
  | a :: as, s => (step a s).bind (run as)

/-- The condition holds of every step, where it is taken. -/
def Along (ok : α → σ → Prop) : List α → σ → Prop
  | [], _ => True
  | a :: as, s => ok a s ∧ ∀ s', step a s = some s' → Along ok as s'

variable {step} {ok : α → σ → Prop} {P : σ → Prop} {as : List α} {s s' : σ}

theorem along_cons {a : α} {s₁ : σ} (hok : ok a s) (hs : step a s = some s₁)
    (hr : Along step ok as s₁) : Along step ok (a :: as) s := by
  refine ⟨hok, fun s' hs' => ?_⟩
  cases hs.symm.trans hs'
  exact hr

instance decidableAlong [∀ a s, Decidable (ok a s)] :
    (as : List α) → (s : σ) → Decidable (Along step ok as s)
  | [], _ => .isTrue trivial
  | a :: as, s =>
    match hstep : step a s with
    | none =>
      decidable_of_iff (ok a s)
        ⟨fun hok => ⟨hok, fun s' hs' => by cases hstep.symm.trans hs'⟩, And.left⟩
    | some s₁ =>
      have := decidableAlong as s₁
      decidable_of_iff (ok a s ∧ Along step ok as s₁)
        ⟨fun h => along_cons h.1 hstep h.2, fun h => ⟨h.1, h.2 s₁ hstep⟩⟩

/-- **The run rule**, for steps that meet a condition. -/
theorem run_invariant_along (hs : ∀ a s s', P s → ok a s → step a s = some s' → P s')
    (h : P s) (hok : Along step ok as s) (hrun : run step as s = some s') : P s' := by
  induction as generalizing s with
  | nil =>
    cases hrun
    exact h
  | cons a as ih =>
    obtain ⟨s₁, ha, hrun⟩ := Option.bind_eq_some_iff.mp hrun
    exact ih (hs a s s₁ h hok.1 ha) (hok.2 s₁ ha) hrun

/-- A condition that holds wherever the step is taken. -/
theorem along_of_forall (hok : ∀ a ∈ as, ∀ s, ok a s) : Along step ok as s := by
  induction as generalizing s with
  | nil => trivial
  | cons a as ih =>
    obtain ⟨ha, has⟩ := List.forall_mem_cons.mp hok
    exact ⟨ha s, fun s' _ => ih has⟩

theorem Along.and_forall {Q : α → Prop} (hok : Along step ok as s) (hall : ∀ a ∈ as, Q a) :
    Along step (fun a s => Q a ∧ ok a s) as s := by
  induction as generalizing s with
  | nil => trivial
  | cons a as ih =>
    obtain ⟨ha, has⟩ := List.forall_mem_cons.mp hall
    exact ⟨⟨ha, hok.1⟩, fun s' hs' => ih (hok.2 s' hs') has⟩

/-- **The run rule.** -/
theorem run_invariant (hs : ∀ a s s', P s → step a s = some s' → P s') (h : P s)
    (hrun : run step as s = some s') : P s' := by
  have ha : Along step (fun _ _ => True) as s := along_of_forall fun _ _ _ => trivial
  exact run_invariant_along (fun a s s' h _ => hs a s s' h) h ha hrun

/-! ## Steps that cannot fail -/

/-- The condition holds of every step of the fold, where it is taken. -/
def Always (step : σ → α → σ) (ok : α → σ → Prop) : List α → σ → Prop
  | [], _ => True
  | a :: as, s => ok a s ∧ Always step ok as (step s a)

/-- **The run rule**, for steps that cannot fail. -/
theorem foldl_invariant {step : σ → α → σ} (hs : ∀ s a, P s → ok a s → P (step s a)) (h : P s)
    (hok : Always step ok as s) : P (as.foldl step s) := by
  induction as generalizing s with
  | nil => exact h
  | cons a as ih => exact ih (hs s a h hok.1) hok.2

/-! ## Histories -/

theorem run_append (as bs : List α) :
    run step (as ++ bs) s = (run step as s).bind (run step bs) := by
  induction as generalizing s with
  | nil => rfl
  | cons a as ih =>
    simp only [List.cons_append, run]
    cases step a s with
    | none => rfl
    | some s₁ => exact ih

theorem run_concat {a : α} {s₁ s₂ : σ} (hrun : run step as s = some s₁)
    (hs : step a s₁ = some s₂) : run step (as ++ [a]) s = some s₂ := by
  rw [run_append, hrun, Option.bind_some, run, hs]
  rfl

/-- **The run rule with the run so far.** -/
theorem run_history {P : List α → σ → Prop} (hs : P [] s)
    (hst : ∀ as a s₁ s₂, run step as s = some s₁ → P as s₁ → step a s₁ = some s₂ →
      P (as ++ [a]) s₂) (hrun : run step as s = some s') : P as s' := by
  induction as using List.reverseRecOn generalizing s' with
  | nil =>
    cases hrun
    exact hs
  | append_singleton as a ih =>
    rw [run_append] at hrun
    obtain ⟨s₁, hrun, hlast⟩ := Option.bind_eq_some_iff.mp hrun
    obtain ⟨s₂, ha, hs₂⟩ := Option.bind_eq_some_iff.mp hlast
    cases hs₂
    exact hst as a s₁ s' hrun (ih hrun) ha

variable {ω : Type}

variable (step) in
/-- What the steps of a run note, in order. -/
def log (note : α → σ → List ω) : List α → σ → List ω
  | [], _ => []
  | a :: as, s => note a s ++ ((step a s).map (log note as)).getD []

theorem log_concat {note : α → σ → List ω} {s₁ : σ} (hrun : run step as s = some s₁) (a : α) :
    log step note (as ++ [a]) s = log step note as s ++ note a s₁ := by
  induction as generalizing s with
  | nil =>
    cases hrun
    cases hs : step a s₁ with
    | none | some s₂ => simp [log, hs]
  | cons b as ih =>
    obtain ⟨s₂, hb, hr⟩ := Option.bind_eq_some_iff.mp hrun
    simp only [List.cons_append, log, hb, Option.map_some, Option.getD_some, ih hr,
      List.append_assoc]

end Runs
