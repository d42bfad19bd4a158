import Mathlib.Algebra.BigOperators.Group.List.Basic
import Mathlib.Algebra.Order.Group.Multiset
import Mathlib.Tactic.Abel
import OxPhp.Lib.Interleave

/-!
# Logs and ledgers

A ledger follows a quantity through a schedule.  Some of it is in the shared
state, some in the hands of operations in progress, some went back with an answer,
some was noted as having left.
-/

namespace Interleave

variable {σ π κ ρ ε ω : Type}

/-! ## Logs -/

def calls (moves : List (Move κ ε)) : List κ :=
  moves.filterMap fun
    | .call k => some k
    | _ => none

def Machine.noted (M : Machine σ π κ ρ ε) (note : π → σ → Next π ρ → List ω)
    (c : Config σ π ρ) : Move κ ε → List ω
  | .act op choice =>
    ((c.running[op]?).bind fun pc =>
      ((M.act pc c.shared)[choice]?).map fun out => note pc c.shared out.1).getD []
  | _ => []

/-- What the steps of a schedule note, oldest first. -/
def Machine.log (M : Machine σ π κ ρ ε) (note : π → σ → Next π ρ → List ω)
    (c : Config σ π ρ) : List (Move κ ε) → List ω
  | [] => []
  | m :: moves =>
    M.noted note c m ++ ((M.step c m).map fun c' => Machine.log M note c' moves).getD []

/-- What a move does, with the call it makes and what it notes. -/
inductive Machine.Notes (M : Machine σ π κ ρ ε) (note : π → σ → Next π ρ → List ω)
    (ok : Config σ π ρ → π → Prop) (c : Config σ π ρ) :
    Config σ π ρ → List κ → List ω → Prop
  | call (k : κ) : Notes M note ok c { c with running := c.running ++ [M.entry k] } [k] []
  | env (e : ε) : Notes M note ok c { c with shared := M.env e c.shared } [] []
  | act {before after : List π} {pc : π} {next : Next π ρ} {shared : σ}
      (running : c.running = before ++ pc :: after) (met : ok c pc)
      (out : (next, shared) ∈ M.act pc c.shared) :
      Notes M note ok c ⟨shared, before ++ next.pcs ++ after, c.returned ++ next.answers⟩ []
        (note pc c.shared next)

variable {M : Machine σ π κ ρ ε} {note : π → σ → Next π ρ → List ω}
  {ok : Config σ π ρ → π → Prop} {c c' : Config σ π ρ}

theorem Machine.notes_of_step {m : Move κ ε} (h : M.step c m = some c')
    (hok : ∀ op choice pc, m = .act op choice → c.running[op]? = some pc → ok c pc) :
    M.Notes note ok c c' (calls [m]) (M.noted note c m) := by
  cases m with
  | call k =>
    cases h
    exact .call k
  | env e =>
    cases h
    exact .env e
  | act op choice =>
    obtain ⟨pc, hpc, h⟩ := Option.bind_eq_some_iff.mp h
    obtain ⟨⟨next, shared⟩, hout, rfl⟩ := Option.map_eq_some_iff.mp h
    have hrunning : c.running = c.running.take op ++ pc :: c.running.drop (op + 1) := by
      obtain ⟨hlt, hget⟩ := List.getElem?_eq_some_iff.mp hpc
      rw [← hget, ← List.drop_eq_getElem_cons hlt, List.take_append_drop]
    have hn : M.noted note c (.act op choice) = note pc c.shared next := by
      simp [Machine.noted, hpc, hout]
    rw [hn]
    exact .act hrunning (hok op choice pc rfl hpc) (List.mem_of_getElem? hout)

variable {moves : List (Move κ ε)} {before after running : List π} {pc : π} {shared : σ}
  {returned : List ρ} {α : Type} {a : α}

theorem Machine.run_log_from {P : Config σ π ρ → List κ → List ω → Prop}
    (hs : ∀ c c' made noted made' noted', P c made noted →
      M.Notes note ok c c' made' noted' → P c' (made ++ made') (noted ++ noted'))
    {made : List κ} {noted : List ω} (h : P c made noted) (hok : M.Along ok c moves)
    (hrun : M.run c moves = some c') :
    P c' (made ++ calls moves) (noted ++ M.log note c moves) := by
  induction moves generalizing c made noted with
  | nil =>
    cases hrun
    simpa [calls, Machine.log] using h
  | cons m moves ih =>
    obtain ⟨c₁, hm, hrun⟩ := Option.bind_eq_some_iff.mp hrun
    have hfirst := hs c c₁ made noted _ _ h (notes_of_step hm hok.1)
    have hr := ih hfirst (hok.2 c₁ hm) hrun
    have hc : calls (m :: moves) = calls [m] ++ calls moves :=
      List.filterMap_append (l := [m])
    rw [List.append_assoc, List.append_assoc] at hr
    rwa [hc, Machine.log, hm, Option.map_some, Option.getD_some]

/-- **The run rule with a log.** -/
theorem Machine.run_log {P : Config σ π ρ → List κ → List ω → Prop}
    (hs : ∀ c c' made noted made' noted', P c made noted →
      M.Notes note ok c c' made' noted' → P c' (made ++ made') (noted ++ noted'))
    (h : P c [] []) (hok : M.Along ok c moves) (hrun : M.run c moves = some c') :
    P c' (calls moves) (M.log note c moves) :=
  run_log_from hs h hok hrun

theorem Machine.Along.and_invariant {P : Config σ π ρ → Prop}
    (hs : ∀ c c', P c → M.Fires ok c c' → P c') (h : P c)
    (hok : M.Along ok c moves) : M.Along (fun c pc => ok c pc ∧ P c) c moves := by
  induction moves generalizing c with
  | nil => trivial
  | cons m moves ih =>
    refine ⟨fun op choice pc hm hpc => ⟨hok.1 op choice pc hm hpc, h⟩, fun c' hc' => ?_⟩
    exact ih (hs c c' h (fires_of_step hc' hok.1)) (hok.2 c' hc')

theorem Machine.Along.imp {ok' : Config σ π ρ → π → Prop}
    (himp : ∀ c pc, pc ∈ c.running → ok c pc → ok' c pc)
    (hok : M.Along ok c moves) : M.Along ok' c moves := by
  induction moves generalizing c with
  | nil => trivial
  | cons m moves ih =>
    refine ⟨fun op choice pc hm hpc => ?_, fun c' hc' => ih (hok.2 c' hc')⟩
    exact himp c pc (List.mem_of_getElem? hpc) (hok.1 op choice pc hm hpc)

/-! ## Ledgers -/

variable {A : Type} [AddCommMonoid A]

def Config.inHands (hand : π → A) (c : Config σ π ρ) : A := (c.running.map hand).sum

/-- All hands but the one of the operation that acts. -/
def inOtherHands (hand : π → A) (before after : List π) : A :=
  (before.map hand).sum + (after.map hand).sum

def Config.wentBack (back : ρ → A) (c : Config σ π ρ) : A := (c.returned.map back).sum

def Next.holds (hand : π → A) (back : ρ → A) : Next π ρ → A
  | go pc => hand pc
  | ret answer => back answer

theorem Config.inHands_eq {hand : π → A} (hrunning : c.running = before ++ pc :: after) :
    c.inHands hand = hand pc + inOtherHands hand before after := by
  simp only [Config.inHands, inOtherHands, hrunning, List.map_append, List.map_cons,
    List.sum_append, List.sum_cons]
  abel

theorem Config.le_inHands (hand : π → Nat) (h : pc ∈ c.running) : hand pc ≤ c.inHands hand := by
  obtain ⟨before, after, hrunning⟩ := List.append_of_mem h
  rw [Config.inHands_eq hrunning]
  exact Nat.le_add_right ..

theorem Config.inHands_next {hand : π → A} {next : Next π ρ} :
    (⟨shared, before ++ next.pcs ++ after, returned⟩ : Config σ π ρ).inHands hand =
      next.holds hand (fun _ => 0) + inOtherHands hand before after := by
  cases next with
  | go pc =>
    simp only [Config.inHands, inOtherHands, Next.holds, Next.pcs_go, List.map_append,
      List.map_cons, List.map_nil, List.sum_append, List.sum_cons, List.sum_nil, add_zero]
    abel
  | ret answer =>
    simp only [Config.inHands, inOtherHands, Next.holds, Next.pcs_ret, List.map_append,
      List.map_nil, List.sum_append, List.sum_nil, add_zero, zero_add]

theorem Config.inHands_act
    (hrunning : c.running = before ++ pc :: after) (hand : π → A) (next : Next π ρ) (shared : σ)
    (returned : List ρ) :
    (⟨shared, before ++ next.pcs ++ after, returned⟩ : Config σ π ρ).inHands hand + hand pc =
      c.inHands hand + next.holds hand (fun _ => 0) := by
  rw [Config.inHands_next, Config.inHands_eq hrunning]
  abel

theorem Config.wentBack_act (back : ρ → A) (next : Next π ρ) (shared : σ) (running : List π) :
    (⟨shared, running, c.returned ++ next.answers⟩ : Config σ π ρ).wentBack back =
      c.wentBack back + next.holds (fun _ => 0) back := by
  cases next with
  | go pc | ret answer => simp [Config.wentBack, Next.holds]

theorem Config.inHands_call {hand : π → A} :
    (⟨c.shared, c.running ++ [pc], c.returned⟩ : Config σ π ρ).inHands hand =
      c.inHands hand + hand pc := by
  simp [Config.inHands]

theorem Config.inHands_called {hand : π → A} (h : hand pc = 0) :
    (⟨c.shared, c.running ++ [pc], c.returned⟩ : Config σ π ρ).inHands hand = c.inHands hand := by
  rw [Config.inHands_call, h, add_zero]

theorem mem_sum_map {hand : π → Multiset α} :
    a ∈ (running.map hand).sum ↔ ∃ pc ∈ running, a ∈ hand pc := by
  induction running with
  | nil => simp
  | cons pc rest ih => simp [ih]

theorem mem_inOtherHands {hand : π → Multiset α} :
    a ∈ inOtherHands hand before after ↔ ∃ pc ∈ before ++ after, a ∈ hand pc := by
  simp only [inOtherHands, Multiset.mem_add, mem_sum_map, List.mem_append, or_and_right, exists_or]

/-- Who has how much of a quantity, and that a step changes hands only. -/
structure Ledger (M : Machine σ π κ ρ ε) (note : π → σ → Next π ρ → List ω)
    (ok : Config σ π ρ → π → Prop) (A : Type) [AddCommMonoid A] where
  brings : κ → A
  here : σ → A
  hand : π → A
  back : ρ → A
  left : ω → A
  call : ∀ k, hand (M.entry k) = brings k
  env : ∀ e s, here (M.env e s) = here s
  act : ∀ c pc next shared, ok c pc → (next, shared) ∈ M.act pc c.shared →
    here c.shared + hand pc =
      here shared + next.holds hand back + ((note pc c.shared next).map left).sum

namespace Ledger

variable (L : Ledger M note ok A)

def holds (c : Config σ π ρ) : A :=
  L.here c.shared + c.inHands L.hand + c.wentBack L.back

theorem step {made : List κ} {noted : List ω} (h : M.Notes note ok c c' made noted) :
    L.holds c + (made.map L.brings).sum = L.holds c' + (noted.map L.left).sum := by
  cases h with
  | call k =>
    simp only [holds, Config.inHands, Config.wentBack, List.map_append, List.sum_append,
      List.map_cons, List.map_nil, List.sum_cons, List.sum_nil, L.call, add_zero]
    abel
  | env e => simp only [holds, Config.inHands, Config.wentBack, L.env, List.map_nil]
  | @act before after pc next shared hrunning hmet hout =>
    have hact := L.act c pc next shared hmet hout
    have hn : next.holds L.hand L.back =
        (next.pcs.map L.hand).sum + (next.answers.map L.back).sum := by
      cases next <;> simp [Next.holds]
    simp only [holds, Config.inHands, Config.wentBack, hrunning, List.map_append, List.sum_append,
      List.map_cons, List.sum_cons, List.map_nil, List.sum_nil, add_zero]
    calc L.here c.shared + ((before.map L.hand).sum + (L.hand pc + (after.map L.hand).sum)) +
          (c.returned.map L.back).sum
        = (L.here c.shared + L.hand pc) + ((before.map L.hand).sum + (after.map L.hand).sum +
            (c.returned.map L.back).sum) := by abel
      _ = _ := by
        rw [hact, hn]
        abel

/-- **The balance.** What was held at first and what the calls brought in is
held at the end or noted as having left. -/
theorem balanced {moves : List (Move κ ε)} (hok : M.Along ok c moves)
    (hrun : M.run c moves = some c') : L.holds c + ((calls moves).map L.brings).sum =
      L.holds c' + ((M.log note c moves).map L.left).sum := by
  let P (c' : Config σ π ρ) (made : List κ) (noted : List ω) : Prop :=
    L.holds c + (made.map L.brings).sum = L.holds c' + (noted.map L.left).sum
  have hs : P c [] [] := rfl
  have hst : ∀ c c' made noted made' noted', P c made noted →
      M.Notes note ok c c' made' noted' → P c' (made ++ made') (noted ++ noted') := by
    intro c₁ c₂ made noted made' noted' h hn
    have hone := L.step hn
    dsimp only [P] at h ⊢
    rw [List.map_append, List.sum_append, List.map_append, List.sum_append, ← add_assoc, h,
      add_right_comm, hone]
    abel
  exact Machine.run_log hst hs hok hrun

end Ledger

end Interleave
