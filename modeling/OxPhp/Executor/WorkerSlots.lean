import Mathlib.Data.List.Nodup
import OxPhp.Lib.Runs
import OxPhp.Php.WorkerRegistry

/-!
# The slots of a dynamic pool

The scale manager hands out slot ids from a free list.  A retired thread's id goes
back at once, before the thread has ended, so that two threads can be at work on
one slot.
-/

namespace OxPhp.Executor.WorkerSlots

open OxPhp.Php.WorkerRegistry (Slot)

/-- A thread, by number, and the address of its interrupt flag. -/
abbrev ThreadId := Nat

inductive Phase where
  | absent
  | running
  | published
  /-- It has withdrawn its address and waits out the kicks in progress. -/
  | retired
  | finished
  deriving DecidableEq

def Phase.Active (p : Phase) : Prop := p = .running ∨ p = .published

instance (p : Phase) : Decidable p.Active := inferInstanceAs (Decidable (_ ∨ _))

structure Pool where
  spawned : Nat
  slotOf : ThreadId → Nat
  phase : ThreadId → Phase
  workers : List ThreadId
  freeIds : List Nat
  slots : Nat → Slot

/-- `spawn_initial` and the free list of `run_scale_manager`. -/
def start (min max : Nat) : Pool where
  spawned := min
  slotOf t := t
  phase t := if t < min then .running else .absent
  workers := List.range min
  freeIds := List.range' min (max - min)
  slots _ := .new

inductive Move where
  | spawn
  /-- The scale-down of an idle worker: its id is free from here on. -/
  | scaleDown (t : ThreadId)
  | reap (t : ThreadId)
  | publish (t : ThreadId)
  /-- The end of a thread's body, for whatever reason: `release_worker_thread`. -/
  | release (t : ThreadId)
  | finish (t : ThreadId)
  deriving DecidableEq

namespace Pool

def setPhase (s : Pool) (t : ThreadId) (p : Phase) : Pool :=
  { s with phase := Function.update s.phase t p }

def onSlot (s : Pool) (t : ThreadId) (f : Slot → Slot) : Pool :=
  { s with slots := Function.update s.slots (s.slotOf t) (f (s.slots (s.slotOf t))) }

def giveBack (s : Pool) (t : ThreadId) : Pool :=
  { s with workers := s.workers.erase t, freeIds := s.freeIds ++ [s.slotOf t] }

def spawnIn (s : Pool) (id : Nat) (ids : List Nat) : Pool :=
  { s with
    spawned := s.spawned + 1
    slotOf := Function.update s.slotOf s.spawned id
    phase := Function.update s.phase s.spawned .running
    workers := s.workers ++ [s.spawned]
    freeIds := ids }

variable {s : Pool} {t u : ThreadId} {p : Phase} {id : Nat} {ids : List Nat}

@[simp] theorem setPhase_self : (s.setPhase t p).phase t = p := Function.update_self ..

theorem setPhase_of_ne (h : u ≠ t) : (s.setPhase t p).phase u = s.phase u :=
  Function.update_of_ne h ..

@[simp] theorem spawnIn_slotOf_self : (s.spawnIn id ids).slotOf s.spawned = id :=
  Function.update_self ..

@[simp] theorem spawnIn_phase_self : (s.spawnIn id ids).phase s.spawned = .running :=
  Function.update_self ..

theorem spawnIn_slotOf (h : u ≠ s.spawned) : (s.spawnIn id ids).slotOf u = s.slotOf u :=
  Function.update_of_ne h ..

theorem spawnIn_phase (h : u ≠ s.spawned) : (s.spawnIn id ids).phase u = s.phase u :=
  Function.update_of_ne h ..

end Pool

def step (m : Move) (s : Pool) : Option Pool :=
  match m with
  | .spawn =>
    match s.freeIds with
    | [] => none
    | id :: ids => some (s.spawnIn id ids)
  | .scaleDown t => if t ∈ s.workers then some (s.giveBack t) else none
  | .reap t =>
    if t ∈ s.workers ∧ s.phase t = .finished then some ((s.giveBack t).onSlot t .clear) else none
  | .publish t =>
    if s.phase t = .running then some ((s.setPhase t .published).onSlot t (·.publish t)) else none
  | .release t =>
    if (s.phase t).Active then some ((s.setPhase t .retired).onSlot t .retireInterrupt) else none
  | .finish t => if s.phase t = .retired then some (s.setPhase t .finished) else none

abbrev run := Runs.run step

/-- A live thread that has published its address finds it in its slot. -/
def Pool.KeepsAddresses (s : Pool) : Prop :=
  ∀ t, s.phase t = .published → (s.slots (s.slotOf t)).interruptFlagPtr = some t

/-- A slot is given to a new thread only when no earlier one can still write to it. -/
def Vacant (m : Move) (s : Pool) : Prop :=
  m = .spawn → ∀ id ∈ s.freeIds.head?, ∀ t, s.slotOf t = id → ¬(s.phase t).Active

/-! ## One thread to a slot -/

structure Owned (s : Pool) : Prop where
  one : ∀ t u, (s.phase t).Active → (s.phase u).Active → s.slotOf t = s.slotOf u → t = u
  /-- Nobody but the worker itself is at work on the slot of a worker of the list. -/
  worker : ∀ w ∈ s.workers, ∀ t, (s.phase t).Active → s.slotOf t = s.slotOf w → t = w
  apart : ∀ w ∈ s.workers, ∀ w' ∈ s.workers, s.slotOf w = s.slotOf w' → w = w'
  free : ∀ w ∈ s.workers, s.slotOf w ∉ s.freeIds
  workers : s.workers.Nodup
  freeIds : s.freeIds.Nodup
  known : ∀ w ∈ s.workers, w < s.spawned
  later : ∀ t, s.spawned ≤ t → s.phase t = .absent

namespace Owned

variable {s : Pool} {t : ThreadId}

theorem start (min max : Nat) : Owned (start min max) where
  one _ _ _ _ h := h
  worker _ _ _ _ h := h
  apart _ _ _ _ h := h
  free w hw hf := by
    have hle := (List.mem_range'_1.mp hf).1
    exact absurd hle (Nat.not_le.mpr (List.mem_range.mp hw))
  workers := List.nodup_range
  freeIds := List.nodup_range'
  known w hw := List.mem_range.mp hw
  later t ht := if_neg (Nat.not_lt.mpr ht)

theorem onSlot (h : Owned s) (t : ThreadId) (f : Slot → Slot) : Owned (s.onSlot t f) := { h with }

theorem setPhase (h : Owned s) {p : Phase} (hs : s.phase t ≠ .absent)
    (ha : p.Active → (s.phase t).Active) : Owned (s.setPhase t p) := by
  have hb : ∀ u, ((s.setPhase t p).phase u).Active → (s.phase u).Active := by
    intro u hu
    by_cases hut : u = t
    · subst hut
      rw [Pool.setPhase_self] at hu
      exact ha hu
    · rwa [Pool.setPhase_of_ne hut] at hu
  refine { h with one := ?_, worker := ?_, later := ?_ }
  · exact fun u v hu hv => h.one u v (hb u hu) (hb v hv)
  · exact fun w hw u hu => h.worker w hw u (hb u hu)
  · intro u hu
    have hut : u ≠ t := by
      rintro rfl
      exact hs (h.later u hu)
    rw [Pool.setPhase_of_ne hut]
    exact h.later u hu

theorem giveBack (h : Owned s) (ht : t ∈ s.workers) : Owned (s.giveBack t) := by
  have hmem : ∀ w, w ∈ s.workers.erase t → w ∈ s.workers := fun _ => List.mem_of_mem_erase
  have hne : ∀ w, w ∈ s.workers.erase t → w ≠ t := fun w hw => (h.workers.mem_erase_iff.mp hw).1
  refine { h with worker := ?_, apart := ?_, free := ?_, workers := ?_, freeIds := ?_, known := ?_ }
  · exact fun w hw => h.worker w (hmem w hw)
  · exact fun w hw w' hw' => h.apart w (hmem w hw) w' (hmem w' hw')
  · intro w hw hf
    rcases List.mem_append.mp hf with hf | hs
    · exact h.free w (hmem w hw) hf
    · exact hne w hw (h.apart w (hmem w hw) t ht (List.mem_singleton.mp hs))
  · exact h.workers.erase t
  · refine List.nodup_append.mpr ⟨h.freeIds, List.nodup_singleton _, ?_⟩
    intro id hid id' hid'
    rw [List.mem_singleton.mp hid']
    rintro rfl
    exact h.free t ht hid
  · exact fun w hw => h.known w (hmem w hw)

theorem spawnIn (h : Owned s) {id : Nat} {ids : List Nat} (hids : s.freeIds = id :: ids)
    (hva : ∀ t, s.slotOf t = id → ¬(s.phase t).Active) : Owned (s.spawnIn id ids) := by
  have hnew : (s.spawnIn id ids).slotOf s.spawned = id := Pool.spawnIn_slotOf_self
  have hs : ∀ u, u ≠ s.spawned → (s.spawnIn id ids).slotOf u = s.slotOf u :=
    fun _ => Pool.spawnIn_slotOf
  have hp : ∀ u, u ≠ s.spawned → (s.spawnIn id ids).phase u = s.phase u :=
    fun _ => Pool.spawnIn_phase
  have hold : ∀ w ∈ s.workers, w ≠ s.spawned := fun w hw => Nat.ne_of_lt (h.known w hw)
  have hf := hids ▸ h.freeIds
  have hb : ∀ w ∈ s.workers, s.slotOf w ≠ id := by
    rintro w hw rfl
    exact h.free w hw (hids ▸ List.mem_cons_self)
  -- who is at work on the slot of the new thread is the new thread
  have hone : ∀ u, ((s.spawnIn id ids).phase u).Active → (s.spawnIn id ids).slotOf u = id →
      u = s.spawned := by
    intro u hu hid
    by_contra hne
    rw [hp u hne] at hu
    rw [hs u hne] at hid
    exact hva u hid hu
  have hwo : ∀ w, w ∈ (s.spawnIn id ids).workers → w ∈ s.workers ∨ w = s.spawned := by
    intro w hw
    rcases List.mem_append.mp hw with hw | hw
    · exact .inl hw
    · exact .inr (List.mem_singleton.mp hw)
  refine ⟨?_, ?_, ?_, ?_, ?_, ?_, ?_, ?_⟩
  · intro u v hu hv huv
    by_cases hu' : u = s.spawned
    · rw [hu', hnew] at huv
      rw [hu', hone v hv huv.symm]
    · by_cases hv' : v = s.spawned
      · rw [hv', hnew] at huv
        exact absurd (hone u hu huv) hu'
      · rw [hs u hu', hs v hv'] at huv
        rw [hp u hu'] at hu
        rw [hp v hv'] at hv
        exact h.one u v hu hv huv
  · intro w hw u hu huw
    rcases hwo w hw with hw | rfl
    · rw [hs w (hold w hw)] at huw
      have hu' : u ≠ s.spawned := by
        rintro rfl
        exact hb w hw (huw.symm.trans hnew)
      rw [hs u hu'] at huw
      rw [hp u hu'] at hu
      exact h.worker w hw u hu huw
    · exact hone u hu (huw.trans hnew)
  · intro w hw w' hw' hww'
    rcases hwo w hw with hw | rfl
    · rw [hs w (hold w hw)] at hww'
      rcases hwo w' hw' with hw' | rfl
      · rw [hs w' (hold w' hw')] at hww'
        exact h.apart w hw w' hw' hww'
      · exact absurd (hww'.trans hnew) (hb w hw)
    · rcases hwo w' hw' with hw' | rfl
      · rw [hs w' (hold w' hw'), hnew] at hww'
        exact absurd hww'.symm (hb w' hw')
      · rfl
  · intro w hw hfr
    rcases hwo w hw with hw | rfl
    · rw [hs w (hold w hw)] at hfr
      exact h.free w hw (hids ▸ List.mem_cons_of_mem _ hfr)
    · rw [hnew] at hfr
      exact (List.nodup_cons.mp hf).1 hfr
  · refine List.nodup_append.mpr ⟨h.workers, List.nodup_singleton _, ?_⟩
    intro w hw w' hw'
    rw [List.mem_singleton.mp hw']
    exact hold w hw
  · exact (List.nodup_cons.mp hf).2
  · intro w hw
    rcases hwo w hw with hw | rfl
    · exact Nat.lt_succ_of_lt (h.known w hw)
    · exact Nat.lt_succ_self _
  · intro u hu
    exact (hp u (Nat.ne_of_gt hu)).trans (h.later u (Nat.le_of_succ_le hu))

end Owned

/-! ## Addresses -/

structure Inv (s : Pool) : Prop where
  owned : Owned s
  addresses : s.KeepsAddresses

namespace Inv

variable {s : Pool} {t : ThreadId}

theorem addresses_onSlot {f : Slot → Slot}
    (ho : ∀ u, s.phase u = .published → s.slotOf u ≠ s.slotOf t →
      (s.slots (s.slotOf u)).interruptFlagPtr = some u)
    (hown : ∀ u, s.phase u = .published → s.slotOf u = s.slotOf t →
      (f (s.slots (s.slotOf t))).interruptFlagPtr = some u) : (s.onSlot t f).KeepsAddresses := by
  intro u hu
  change (Function.update s.slots (s.slotOf t) _ (s.slotOf u)).interruptFlagPtr = some u
  by_cases hs : s.slotOf u = s.slotOf t
  · rw [hs, Function.update_self]
    exact hown u hu hs
  · rw [Function.update_of_ne hs]
    exact ho u hu hs

theorem publish (h : Inv s) (ht : s.phase t = .running) :
    Inv ((s.setPhase t .published).onSlot t (·.publish t)) := by
  have ha : (s.phase t).Active := .inl ht
  refine ⟨(h.owned.setPhase (by rw [ht]; nofun) fun _ => ha).onSlot t _, ?_⟩
  refine addresses_onSlot ?_ ?_
  · intro u hu hs
    have hut : u ≠ t := fun heq => hs (by rw [heq])
    exact h.addresses u (Pool.setPhase_of_ne hut ▸ hu)
  · intro u hu hs
    by_cases hut : u = t
    · rw [hut]
      rfl
    · rw [Pool.setPhase_of_ne hut] at hu
      exact absurd (h.owned.one u t (.inr hu) ha hs) hut

theorem release (h : Inv s) (ht : (s.phase t).Active) :
    Inv ((s.setPhase t .retired).onSlot t .retireInterrupt) := by
  have hs : s.phase t ≠ .absent := by
    intro ha
    rw [ha] at ht
    rcases ht with ht | ht <;> cases ht
  have hr : ¬Phase.retired.Active := by decide
  refine ⟨(h.owned.setPhase hs fun hp => absurd hp hr).onSlot t _, ?_⟩
  have hk : ∀ u, (s.setPhase t .retired).phase u = .published →
      u ≠ t ∧ s.phase u = .published := by
    intro u hu
    by_cases hut : u = t
    · rw [hut, Pool.setPhase_self] at hu
      cases hu
    · exact ⟨hut, Pool.setPhase_of_ne hut ▸ hu⟩
  refine addresses_onSlot ?_ ?_
  · exact fun u hu _ => h.addresses u (hk u hu).2
  · intro u hu hsl
    obtain ⟨hut, hpu⟩ := hk u hu
    exact absurd (h.owned.one u t (.inr hpu) ht hsl) hut

theorem reap (h : Inv s) (ht : t ∈ s.workers) (hf : s.phase t = .finished) :
    Inv ((s.giveBack t).onSlot t .clear) := by
  refine ⟨(h.owned.giveBack ht).onSlot t _, addresses_onSlot (fun u hu _ => h.addresses u hu) ?_⟩
  intro u hu hs
  have hut : u = t := h.owned.worker t ht u (.inr hu) hs
  rw [hut] at hu
  rw [show s.phase t = .published from hu] at hf
  cases hf

theorem step {m : Move} {s' : Pool} (h : Inv s) (hv : Vacant m s)
    (hs : step m s = some s') : Inv s' := by
  cases m with
  | spawn =>
    cases hids : s.freeIds with
    | nil => simp [WorkerSlots.step, hids] at hs
    | cons id ids =>
      simp only [WorkerSlots.step, hids] at hs
      cases hs
      refine ⟨h.owned.spawnIn hids (hv rfl id (by rw [hids]; rfl)), ?_⟩
      intro u hu
      have hne : u ≠ s.spawned := by
        rintro rfl
        rw [Pool.spawnIn_phase_self] at hu
        cases hu
      rw [Pool.spawnIn_phase hne] at hu
      rw [Pool.spawnIn_slotOf hne]
      exact h.addresses u hu
  | scaleDown t =>
    obtain ⟨ht, hs'⟩ := Option.ite_none_right_eq_some.mp hs
    cases hs'
    exact ⟨h.owned.giveBack ht, h.addresses⟩
  | reap t =>
    obtain ⟨⟨ht, hf⟩, hs'⟩ := Option.ite_none_right_eq_some.mp hs
    cases hs'
    exact h.reap ht hf
  | publish t =>
    obtain ⟨ht, hs'⟩ := Option.ite_none_right_eq_some.mp hs
    cases hs'
    exact h.publish ht
  | release t =>
    obtain ⟨ht, hs'⟩ := Option.ite_none_right_eq_some.mp hs
    cases hs'
    exact h.release ht
  | finish t =>
    obtain ⟨ht, hs'⟩ := Option.ite_none_right_eq_some.mp hs
    cases hs'
    refine ⟨h.owned.setPhase (by rw [ht]; nofun) fun hp => absurd hp (by decide), ?_⟩
    intro u hu
    by_cases hut : u = t
    · rw [hut, Pool.setPhase_self] at hu
      cases hu
    · rw [Pool.setPhase_of_ne hut] at hu
      exact h.addresses u hu

end Inv

/-- **A published address stays.**  In every run in which a slot is given to a new thread only
once the earlier ones have withdrawn their addresses, a live thread that has published its
address finds it in its slot. -/
theorem published_address_kept (min max : Nat) (moves : List Move) (s : Pool)
    (hvacant : Runs.Along step Vacant moves (start min max))
    (hrun : run moves (start min max) = some s) : s.KeepsAddresses := by
  have hst : Inv (start min max) := by
    refine ⟨.start min max, fun t ht => ?_⟩
    simp only [start] at ht
    split at ht <;> cases ht
  exact (Runs.run_invariant_along (fun _ _ _ h hv hs => h.step hv hs) hst hvacant hrun).addresses

/-- A thread is retired, ends, and its slot is then used again. -/
def reusedAfterEnd : List Move :=
  [.spawn, .publish 1, .scaleDown 1, .release 1, .finish 1, .spawn, .publish 2]

theorem published_address_kept_reusedAfterEnd :
    ∃ s, run reusedAfterEnd (start 1 2) = some s ∧ s.phase 2 = .published ∧ s.slotOf 2 = 1 ∧
      s.KeepsAddresses := by
  have hv : Runs.Along step Vacant reusedAfterEnd (start 1 2) := by
    refine Runs.along_cons ?_ rfl ?_
    · rintro - _ ⟨⟩ t (rfl : t = 1)
      decide
    refine Runs.along_cons nofun rfl (Runs.along_cons nofun rfl ?_)
    refine Runs.along_cons nofun rfl (Runs.along_cons nofun rfl (Runs.along_cons ?_ rfl ?_))
    · rintro - _ ⟨⟩ t ht
      obtain rfl : t = 1 := by
        by_contra hne
        change Function.update (fun t => t) 1 1 t = 1 at ht
        rw [Function.update_of_ne hne] at ht
        exact hne ht
      decide
    exact Runs.along_cons nofun rfl trivial
  exact ⟨_, rfl, rfl, rfl, published_address_kept 1 2 reusedAfterEnd _ hv rfl⟩

/-- The slot is used again while the retired thread is still there: with its end it
withdraws the address of its successor, which has nothing left to publish it again. -/
theorem late_exit_unpublishes :
    ∃ s, run [.spawn, .publish 1, .scaleDown 1, .spawn, .publish 2, .release 1] (start 1 2) =
        some s ∧ s.phase 2 = .published ∧ (s.slots (s.slotOf 2)).interruptFlagPtr = none ∧
      step (.publish 2) s = none :=
  ⟨_, rfl, rfl, rfl, rfl⟩

end OxPhp.Executor.WorkerSlots
