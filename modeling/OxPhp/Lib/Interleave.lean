import Mathlib.Tactic.Common

/-!
# Interleaved operations

Operations that run concurrently on shared state.  Each is a program counter
that takes one atomic step at a time; a schedule says which operation acts next,
when a call begins and when the environment interferes.
-/

namespace Interleave

/-- Where an atomic step leaves the operation. -/
inductive Next (π ρ : Type) where
  | go (pc : π)
  | ret (answer : ρ)

namespace Next

variable {π ρ : Type}

def pcs : Next π ρ → List π
  | go pc => [pc]
  | ret _ => []

def answers : Next π ρ → List ρ
  | go _ => []
  | ret answer => [answer]

@[simp] theorem pcs_go (pc : π) : (go pc : Next π ρ).pcs = [pc] := rfl
@[simp] theorem pcs_ret (answer : ρ) : (ret answer : Next π ρ).pcs = [] := rfl
@[simp] theorem answers_go (pc : π) : (go pc : Next π ρ).answers = [] := rfl
@[simp] theorem answers_ret (answer : ρ) : (ret answer : Next π ρ).answers = [answer] := rfl

theorem forall_pcs_ret {P : π → Prop} (answer : ρ) : ∀ pc ∈ (ret answer : Next π ρ).pcs, P pc :=
  fun _ hpc => absurd hpc List.not_mem_nil

end Next

/-- Shared state `σ`, program counters `π`, calls `κ`, answers `ρ`, interference
`ε`.  An atomic step may have several outcomes, or none while it has to wait. -/
structure Machine (σ π κ ρ ε : Type) where
  entry : κ → π
  act : π → σ → List (Next π ρ × σ)
  env : ε → σ → σ

theorem sole_outcome {α β : Type} {a a' : α} {b b' : β} (h : (a, b) ∈ [(a', b')]) :
    (a, b) = (a', b') :=
  List.mem_singleton.mp h

theorem forall_mem_ite {α : Type} {P : α → Prop} {c : Prop} [Decidable c] {l l' : List α}
    (h : c → ∀ a ∈ l, P a) (h' : ¬c → ∀ a ∈ l', P a) : ∀ a ∈ if c then l else l', P a := by
  split
  · next hc => exact h hc
  · next hc => exact h' hc

structure Config (σ π ρ : Type) where
  shared : σ
  running : List π
  returned : List ρ

inductive Move (κ ε : Type) where
  | call (k : κ)
  /-- The operation at this position takes the given one of its outcomes. -/
  | act (op choice : Nat)
  | env (e : ε)

variable {σ π κ ρ ε : Type} (M : Machine σ π κ ρ ε)

def Machine.step (c : Config σ π ρ) : Move κ ε → Option (Config σ π ρ)
  | .call k => some { c with running := c.running ++ [M.entry k] }
  | .env e => some { c with shared := M.env e c.shared }
  | .act op choice =>
    (c.running[op]?).bind fun pc =>
      ((M.act pc c.shared)[choice]?).map fun out =>
        { shared := out.2
          running := c.running.take op ++ out.1.pcs ++ c.running.drop (op + 1)
          returned := c.returned ++ out.1.answers }

def Machine.run (c : Config σ π ρ) : List (Move κ ε) → Option (Config σ π ρ)
  | [] => some c
  | m :: moves => (M.step c m).bind fun c' => Machine.run c' moves

/-- The condition holds of every operation that acts, where it acts. -/
def Machine.Along (ok : Config σ π ρ → π → Prop) (c : Config σ π ρ) : List (Move κ ε) → Prop
  | [] => True
  | m :: moves =>
    (∀ op choice pc, m = .act op choice → c.running[op]? = some pc → ok c pc) ∧
      ∀ c', M.step c m = some c' → Machine.Along ok c' moves

/-! ## One move -/

/-- What a move does, without positions. -/
inductive Machine.Fires (ok : Config σ π ρ → π → Prop) (c : Config σ π ρ) : Config σ π ρ → Prop
  | call (k : κ) : Fires ok c { c with running := c.running ++ [M.entry k] }
  | env (e : ε) : Fires ok c { c with shared := M.env e c.shared }
  | act {before after : List π} {pc : π} {next : Next π ρ} {shared : σ}
      (running : c.running = before ++ pc :: after) (met : ok c pc)
      (out : (next, shared) ∈ M.act pc c.shared) :
      Fires ok c ⟨shared, before ++ next.pcs ++ after, c.returned ++ next.answers⟩

variable {M} {ok : Config σ π ρ → π → Prop} {c c' : Config σ π ρ} {m : Move κ ε} {pc : π}
  {moves : List (Move κ ε)} {χ : Type} {owes : σ → χ → Prop} {holds : π → χ → Prop}
  {next : Next π ρ} {s s₁ s' : σ} {answer : ρ}

theorem Machine.fires_of_step (h : M.step c m = some c')
    (hok : ∀ op choice pc, m = .act op choice → c.running[op]? = some pc → ok c pc) :
    M.Fires ok c c' := by
  cases m with
  | call k =>
    cases h
    exact .call k
  | env e =>
    cases h
    exact .env e
  | act op choice =>
    obtain ⟨pc, hpc, h⟩ := Option.bind_eq_some_iff.mp h
    obtain ⟨⟨next, shared⟩, hout, rfl⟩ := Option.map_eq_some_iff.mp h
    refine .act ?_ (hok op choice pc rfl hpc) (List.mem_of_getElem? hout)
    obtain ⟨hlt, hget⟩ := List.getElem?_eq_some_iff.mp hpc
    rw [← hget, ← List.drop_eq_getElem_cons hlt, List.take_append_drop]

theorem Config.mem_running {before after : List π} (h : c.running = before ++ pc :: after) :
    pc ∈ c.running :=
  h ▸ List.mem_append_right _ List.mem_cons_self

theorem forall_called {P : π → Prop} {running : List π} (hold : ∀ x ∈ running, P x)
    (hnew : P pc) : ∀ x ∈ running ++ [pc], P x :=
  List.forall_mem_append.mpr ⟨hold, List.forall_mem_singleton.mpr hnew⟩

theorem forall_running {P : π → Prop} {before after news : List π}
    (hold : ∀ x ∈ before ++ pc :: after, P x) (hnew : ∀ x ∈ news, P x) :
    ∀ x ∈ before ++ news ++ after, P x := by
  intro x hx
  rw [List.append_assoc, List.mem_append, List.mem_append] at hx
  rcases hx with hx | hx | hx
  · exact hold x (List.mem_append_left _ hx)
  · exact hnew x hx
  · exact hold x (List.mem_append_right _ (List.mem_cons_of_mem _ hx))

/-- **The run rule.** What every move keeps holds after every schedule. -/
theorem Machine.run_invariant {P : Config σ π ρ → Prop}
    (hs : ∀ c c', P c → M.Fires ok c c' → P c') (h : P c)
    (hok : M.Along ok c moves) (hrun : M.run c moves = some c') : P c' := by
  induction moves generalizing c with
  | nil =>
    cases hrun
    exact h
  | cons m moves ih =>
    obtain ⟨c₁, hm, hrun⟩ := Option.bind_eq_some_iff.mp hrun
    exact ih (hs c c₁ h (fires_of_step hm hok.1)) (hok.2 c₁ hm) hrun

def Machine.checkAlong (M : Machine σ π κ ρ ε) (check : Config σ π ρ → π → Bool)
    (c : Config σ π ρ) : List (Move κ ε) → Bool
  | [] => true
  | m :: moves =>
    (match m with
      | .act op _ => (c.running[op]?).all (check c)
      | _ => true) && (M.step c m).all fun c' => Machine.checkAlong M check c' moves

theorem Machine.along_of_check {check : Config σ π ρ → π → Bool}
    (hc : ∀ c pc, check c pc = true → ok c pc)
    (h : M.checkAlong check c moves = true) : M.Along ok c moves := by
  induction moves generalizing c with
  | nil => trivial
  | cons m moves ih =>
    obtain ⟨hnow, hl⟩ := Bool.and_eq_true_iff.mp h
    constructor
    · rintro op choice pc rfl hpc
      simp only [hpc, Option.all_some] at hnow
      exact hc c pc hnow
    · intro c' hs
      rw [hs] at hl
      exact ih hl

theorem Machine.along_true (moves : List (Move κ ε)) (c : Config σ π ρ) :
    M.Along (fun _ _ => True) c moves := by
  induction moves generalizing c with
  | nil => trivial
  | cons m moves ih => exact ⟨fun _ _ _ _ _ => trivial, fun c' _ => ih c'⟩

/-- What a move establishes and every move keeps holds after a schedule with
that move. -/
theorem Machine.run_established {P : Config σ π ρ → Prop}
    (hma : ∀ c c', M.step c m = some c' → P c')
    (hs : ∀ c c', P c → M.Fires (fun _ _ => True) c c' → P c')
    (hm : m ∈ moves) (hrun : M.run c moves = some c') : P c' := by
  induction moves generalizing c with
  | nil => cases hm
  | cons first moves ih =>
    obtain ⟨c₁, hfirst, hr⟩ := Option.bind_eq_some_iff.mp hrun
    rcases List.mem_cons.mp hm with rfl | hm
    · exact run_invariant hs (hma c c₁ hfirst) (along_true moves c₁) hr
    · exact ih hm hr

/-! ## Coverings -/

/-- Some operation in progress holds each obligation of the shared state. -/
def Covered {χ : Type} (owes : σ → χ → Prop) (holds : π → χ → Prop) (c : Config σ π ρ) : Prop :=
  ∀ x, owes c.shared x → ∃ pc ∈ c.running, holds pc x

/-- **The covering rule.** A step hands its obligations on, meets them, or
leaves them to another operation that holds them too. -/
theorem Covered.step (h : Covered owes holds c) (hf : M.Fires ok c c')
    (henv : ∀ e x, owes (M.env e c.shared) x → owes c.shared x)
    (hact : ∀ pc ∈ c.running, ∀ next shared, ok c pc → (next, shared) ∈ M.act pc c.shared →
      ∀ x, owes shared x → (∃ pc' ∈ next.pcs, holds pc' x) ∨
        (owes c.shared x ∧ (holds pc x → ∃ other ∈ c.running, other ≠ pc ∧ holds other x))) :
    Covered owes holds c' := by
  intro x hx
  cases hf with
  | call k =>
    obtain ⟨pc, hpc, hh⟩ := h x hx
    exact ⟨pc, List.mem_append_left _ hpc, hh⟩
  | env e => exact h x (henv e x hx)
  | @act before after pc next shared hrunning hmet hout =>
    rcases hact pc (Config.mem_running hrunning) next shared hmet hout x hx with
      ⟨pc', hpc', hh⟩ | ⟨how, ho⟩
    · refine ⟨pc', ?_, hh⟩
      simp only [List.mem_append]
      exact .inl (.inr hpc')
    · -- whoever held it before and is not the one that acted still does
      obtain ⟨keeper, hmem, hne, hh⟩ : ∃ keeper ∈ c.running, keeper ≠ pc ∧ holds keeper x := by
        obtain ⟨keeper, hmem, hh⟩ := h x how
        by_cases hsa : keeper = pc
        · exact ho (hsa ▸ hh)
        · exact ⟨keeper, hmem, hsa, hh⟩
      refine ⟨keeper, ?_, hh⟩
      rw [hrunning, List.mem_append, List.mem_cons] at hmem
      simp only [List.mem_append]
      rcases hmem with hmem | rfl | hmem
      · exact .inl (.inl hmem)
      · exact absurd rfl hne
      · exact .inr hmem

theorem Covered.quiet
    (h : Covered owes holds c) (hq : c.running = []) (x : χ) : ¬owes c.shared x := by
  intro hx
  obtain ⟨pc, hpc, -⟩ := h x hx
  rw [hq] at hpc
  cases hpc

/-! ## One operation at a time -/

variable (M) in
/-- Calls begin and the environment interferes only when no operation is in
progress. -/
def Machine.Serial (c : Config σ π ρ) : List (Move κ ε) → Prop
  | [] => True
  | m :: moves =>
    ((∀ op choice, m ≠ .act op choice) → c.running = []) ∧
      ∀ c', M.step c m = some c' → Machine.Serial c' moves

/-- What holds while an operation is at a step, and what holds between two. -/
def Next.Lands (idle : σ → Prop) (busy : σ → π → Prop) (s : σ) : Next π ρ → Prop
  | go pc => busy s pc
  | ret _ => idle s

inductive Config.OneAtATime (idle : σ → Prop) (busy : σ → π → Prop) : Config σ π ρ → Prop
  | idle {s : σ} {returned : List ρ} (h : idle s) : OneAtATime idle busy ⟨s, [], returned⟩
  | busy {s : σ} {pc : π} {returned : List ρ} (h : busy s pc) :
      OneAtATime idle busy ⟨s, [pc], returned⟩

/-- **The run rule for one operation at a time.** -/
theorem Machine.run_serial {idle : σ → Prop} {busy : σ → π → Prop}
    (hc : ∀ s k, idle s → busy s (M.entry k)) (henv : ∀ s e, idle s → idle (M.env e s))
    (hact : ∀ s pc next s', busy s pc → (next, s') ∈ M.act pc s → next.Lands idle busy s')
    (h : c.OneAtATime idle busy) (hs : M.Serial c moves) (hrun : M.run c moves = some c') :
    c'.OneAtATime idle busy := by
  induction moves generalizing c with
  | nil =>
    cases hrun
    exact h
  | cons m moves ih =>
    obtain ⟨c₁, hm, hrun⟩ := Option.bind_eq_some_iff.mp hrun
    refine ih ?_ (hs.2 c₁ hm) hrun
    cases m with
    | call k =>
      cases hm
      cases h with
      | idle h => exact .busy (hc _ k h)
      | busy h => cases hs.1 nofun
    | env e =>
      cases hm
      cases h with
      | idle h => exact .idle (henv _ e h)
      | busy h => cases hs.1 nofun
    | act op choice =>
      obtain ⟨pc, hpc, hm⟩ := Option.bind_eq_some_iff.mp hm
      obtain ⟨⟨next, shared⟩, hout, rfl⟩ := Option.map_eq_some_iff.mp hm
      cases h with
      | idle h => simp at hpc
      | @busy s pc' returned h =>
        -- the one operation in progress is the one that acts
        obtain ⟨rfl, rfl⟩ : op = 0 ∧ pc' = pc := by
          cases op with
          | zero => exact ⟨rfl, by simpa using hpc⟩
          | succ op => simp at hpc
        have hl := hact s pc' next shared h (List.mem_of_getElem? hout)
        cases next with
        | go pc => exact .busy hl
        | ret answer => exact .idle hl

def Machine.checkSerial (M : Machine σ π κ ρ ε) (c : Config σ π ρ) : List (Move κ ε) → Bool
  | [] => true
  | m :: moves =>
    (match m with
      | .act _ _ => true
      | _ => c.running.isEmpty) && (M.step c m).all fun c' => Machine.checkSerial M c' moves

theorem Machine.serial_of_check (h : M.checkSerial c moves = true) : M.Serial c moves := by
  induction moves generalizing c with
  | nil => trivial
  | cons m moves ih =>
    obtain ⟨hnow, hl⟩ := Bool.and_eq_true_iff.mp h
    constructor
    · intro hc
      cases m with
      | call k | env e => exact List.isEmpty_iff.mp hnow
      | act op choice => exact absurd rfl (hc op choice)
    · intro c' hs
      rw [hs] at hl
      exact ih hl

/-! ## An operation alone -/

variable (M) in
/-- From here the operation can run to its end with no other in between. -/
inductive Machine.Solo : Next π ρ → σ → ρ → σ → Prop
  | ret (answer : ρ) (s : σ) : Solo (.ret answer) s answer s
  | go {pc : π} {next : Next π ρ} {s s₁ s' : σ} {answer : ρ} (out : (next, s₁) ∈ M.act pc s)
      (rest : Solo next s₁ answer s') : Solo (.go pc) s answer s'

theorem Machine.Solo.step (hact : M.act pc s = [(next, s₁)]) (hr : M.Solo next s₁ answer s') :
    M.Solo (.go pc) s answer s' :=
  .go (by simp [hact]) hr

theorem Machine.Solo.invariant {P : Next π ρ → σ → Prop}
    (hs : ∀ {pc s next s₁}, P (.go pc) s → (next, s₁) ∈ M.act pc s → P next s₁)
    (h : M.Solo next s answer s') (hst : P next s) : P (.ret answer) s' := by
  induction h with
  | ret answer s => exact hst
  | go out rest ih => exact ih (hs hst out)

/-- The operation, running alone, comes to its end whichever outcomes its steps have. -/
inductive Machine.Ends : Next π ρ → σ → Prop
  | ret (answer : ρ) (s : σ) : Ends (.ret answer) s
  | go {pc : π} {s : σ} (moves : M.act pc s ≠ [])
      (rest : ∀ next s₁, (next, s₁) ∈ M.act pc s → Ends next s₁) : Ends (.go pc) s

theorem Machine.Ends.step
    (hact : M.act pc s = [(next, s₁)]) (hr : M.Ends next s₁) : M.Ends (.go pc) s := by
  refine .go (by simp [hact]) fun next' s' hout => ?_
  rw [hact] at hout
  cases List.mem_singleton.mp hout
  exact hr

theorem Machine.Ends.exists_solo (h : M.Ends next s) : ∃ answer s', M.Solo next s answer s' := by
  induction h with
  | ret answer s => exact ⟨answer, s, .ret answer s⟩
  | @go pc s moves rest ih =>
    obtain ⟨out, hout⟩ := List.exists_mem_of_ne_nil _ moves
    obtain ⟨answer, s', hs⟩ := ih out.1 out.2 hout
    exact ⟨answer, s', .go hout hs⟩

end Interleave
