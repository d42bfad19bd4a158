import Mathlib.Tactic.Common

/-!
# Effects that may fail

Computations on a state that end with a value or an error and leave the state
they have reached, either way.
-/

namespace Effect

open EStateM (Result)

variable {ε ε' σ α β : Type}

/-- The state a computation leaves, whether it succeeded or not. -/
def after : Result ε σ α → σ
  | .ok _ s => s
  | .error _ s => s

def answer : Result ε σ α → Except ε α
  | .ok a _ => .ok a
  | .error e _ => .error e

def check (x : Except ε α) : EStateM ε σ α :=
  match x with
  | .ok a => pure a
  | .error e => throw e

/-! ## Sequences -/

theorem run_check_bind (x : Except ε α) (f : α → EStateM ε σ β) (s : σ) : (check x >>= f).run s =
      match x with
      | .ok a => (f a).run s
      | .error e => .error e s := by
  cases x with
  | ok a => rfl
  | error e => rfl

theorem run_adaptExcept {g : ε → ε'} {x : EStateM ε σ α} {s : σ} : (EStateM.adaptExcept g x).run s =
      match x.run s with
      | .ok a s' => .ok a s'
      | .error e s' => .error (g e) s' := by
  dsimp only [EStateM.adaptExcept, EStateM.run]
  cases x s with
  | ok a s' => rfl
  | error e s' => rfl

/-! ## Postconditions -/

section Ends

variable {x : EStateM ε σ α} {f : α → EStateM ε σ β} {Q Q' : α → σ → Prop}
  {E E' : ε → σ → Prop} {s : σ}

/-- From this state the computation ends with a value as in `Q`, or with an error
as in `E`. -/
def Ends (x : EStateM ε σ α) (s : σ) (Q : α → σ → Prop) (E : ε → σ → Prop) : Prop :=
  match x.run s with
  | .ok a s' => Q a s'
  | .error e s' => E e s'

theorem Ends.ok {a : α} {s' : σ} (h : Ends x s Q E) (hrun : x.run s = .ok a s') : Q a s' := by
  rw [Ends, hrun] at h
  exact h

theorem Ends.error {e : ε} {s' : σ} (h : Ends x s Q E) (hrun : x.run s = .error e s') : E e s' := by
  rw [Ends, hrun] at h
  exact h

theorem Ends.imp (h : Ends x s Q E) (hQ : ∀ a s', Q a s' → Q' a s')
    (hE : ∀ e s', E e s' → E' e s') : Ends x s Q' E' := by
  unfold Ends at h ⊢
  split
  · next a s' hrun =>
    rw [hrun] at h
    exact hQ a s' h
  · next e s' hrun =>
    rw [hrun] at h
    exact hE e s' h

theorem Ends.and (h : Ends x s Q E) (h' : Ends x s Q' E') :
    Ends x s (fun a s' => Q a s' ∧ Q' a s') fun e s' => E e s' ∧ E' e s' := by
  unfold Ends at h h' ⊢
  split
  · next a s' hrun =>
    rw [hrun] at h h'
    exact ⟨h, h'⟩
  · next e s' hrun =>
    rw [hrun] at h h'
    exact ⟨h, h'⟩

theorem ends_pure {a : α} (h : Q a s) : Ends (pure a) s Q E := h

theorem ends_throw {e : ε} (h : E e s) : Ends (throw e) s Q E := h

theorem ends_modify {g : σ → σ} {Q : PUnit → σ → Prop} (h : Q ⟨⟩ (g s)) :
    Ends (modify g : EStateM ε σ PUnit) s Q E := h

/-- **The rule of sequence.** -/
theorem Ends.bind {Q : β → σ → Prop} (h : Ends x s (fun a s' => Ends (f a) s' Q E) E) :
    Ends (x >>= f) s Q E := by
  unfold Ends at h ⊢
  rw [EStateM.run_bind]
  cases hrun : x.run s with
  | ok a s' | error e s' =>
    rw [hrun] at h
    exact h

theorem ends_map {Q : β → σ → Prop} {g : α → β} (h : Ends x s (fun a s' => Q (g a) s') E) :
    Ends (g <$> x) s Q E := by
  rw [map_eq_pure_bind]
  exact Ends.bind (h.imp (fun _ _ hQ => ends_pure hQ) fun _ _ hE => hE)

end Ends

/-! ## Loops that only an error ends -/

section Loop

variable {body : EStateM ε σ Unit} {I : σ → Prop}

/-- The body again and again, at most so many times. -/
def loop (body : EStateM ε σ Unit) : Nat → σ → Option (ε × σ)
  | 0, _ => none
  | n + 1, s =>
    match body.run s with
    | .ok _ s' => loop body n s'
    | .error e s' => some (e, s')

variable {n : Nat} {s s' : σ} {e : ε}

theorem loop_isSome {clock : σ → Nat} {T : Nat}
    (hb : ∀ s, I s → Ends body s (fun _ s' => I s' ∧ clock s < clock s' ∧ clock s < T)
      fun _ _ => True) (hs : I s) (hn : T - clock s < n) : (loop body n s).isSome := by
  induction n generalizing s with
  | zero => exact absurd hn (Nat.not_lt_zero _)
  | succ n ih =>
    have ht := hb s hs
    unfold loop
    split
    · next _ s' hrun =>
      obtain ⟨hs', hti, hl⟩ := ht.ok hrun
      apply ih hs'
      omega
    · rfl

theorem loop_eq_none (hb : ∀ s, I s → Ends body s (fun _ s' => I s') fun _ _ => False)
    (hs : I s) (n : Nat) : loop body n s = none := by
  induction n generalizing s with
  | zero => rfl
  | succ n ih =>
    have ht := hb s hs
    unfold loop
    split
    · next _ s' hrun => exact ih (ht.ok hrun)
    · next e s' hrun => exact (ht.error hrun).elim

theorem loop_ends {E : ε → σ → Prop} (hb : ∀ s, I s → Ends body s (fun _ s' => I s') E)
    (hs : I s) (h : loop body n s = some (e, s')) : E e s' := by
  induction n generalizing s with
  | zero => cases h
  | succ n ih =>
    have ht := hb s hs
    unfold loop at h
    split at h
    · next hrun => exact ih (ht.ok hrun) h
    · next hrun =>
      cases h
      exact ht.error hrun

theorem of_loop_eq_some {E : ε → Prop} (hb : ∀ s, Ends body s (fun _ _ => True) fun e _ => E e)
    (h : loop body n s = some (e, s')) : E e :=
  loop_ends (I := fun _ => True) (E := fun e _ => E e) (fun s _ => hb s) trivial h

end Loop

end Effect
