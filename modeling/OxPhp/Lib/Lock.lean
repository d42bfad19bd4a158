import OxPhp.Lib.Interleave

/-!
# Operations under one lock

Interleaved operations of which at most one at a time is inside a lock, with what
holds while the lock is free, inside, and for those outside.
-/

namespace Interleave

variable {σ π κ ρ : Type}

/-- What is known of the shared state, the operations and the answers. -/
structure LockSpec (σ π ρ : Type) where
  locked : σ → Bool
  holds : π → Bool
  always : σ → Prop
  free : σ → Prop
  inside : σ → π → Prop
  outside : σ → π → Prop
  answered : σ → ρ → Prop
  grows : σ → σ → Prop

namespace LockSpec

variable (L : LockSpec σ π ρ)

/-- An operation outside that has come this far. -/
def Waiting (s : σ) (pc : π) : Prop := L.holds pc = false ∧ L.outside s pc

/-- The end of a step that leaves the lock to others. -/
def Leaves (s : σ) (next : Next π ρ) : Prop :=
  (∀ pc ∈ next.pcs, L.Waiting s pc) ∧ ∀ answer ∈ next.answers, L.answered s answer

/-- The end of a step inside. -/
def Stays (s : σ) (next : Next π ρ) : Prop :=
  ∃ pc, next = .go pc ∧ L.locked s = true ∧ L.holds pc = true ∧ L.inside s pc

/-- **The discipline**: how an operation may take the lock, work and let go. -/
structure Disciplined (M : Machine σ π κ ρ Empty) : Prop where
  entry : ∀ s k, L.Waiting s (M.entry k)
  waits : ∀ s pc next s', L.always s → L.Waiting s pc → (next, s') ∈ M.act pc s →
    (s' = s ∧ L.Leaves s next) ∨
      (L.locked s = false ∧ (L.free s → L.Stays s' next) ∧ L.always s' ∧ L.grows s s')
  works : ∀ s pc next s', L.always s → L.locked s = true → L.holds pc = true → L.inside s pc →
    (next, s') ∈ M.act pc s → L.always s' ∧ L.grows s s' ∧
      (L.Stays s' next ∨ (L.locked s' = false ∧ L.free s' ∧ L.Leaves s' next))
  outside_grows : ∀ s s' pc, L.grows s s' → L.outside s pc → L.outside s' pc
  answered_grows : ∀ s s' answer, L.grows s s' → L.answered s answer → L.answered s' answer

/-- At most one operation is inside, and all is as it is known to be. -/
structure Invariant (c : Config σ π ρ) : Prop where
  one : c.running.countP L.holds = (L.locked c.shared).toNat
  always : L.always c.shared
  free : L.locked c.shared = false → L.free c.shared
  inside : ∀ pc ∈ c.running, L.holds pc = true → L.inside c.shared pc
  outside : ∀ pc ∈ c.running, L.holds pc = false → L.outside c.shared pc
  answers : ∀ answer ∈ c.returned, L.answered c.shared answer

variable {L} {M : Machine σ π κ ρ Empty} {c c' : Config σ π ρ}

namespace Invariant

theorem call (h : L.Invariant c) (hM : L.Disciplined M) (k : κ) :
    L.Invariant { c with running := c.running ++ [M.entry k] } := by
  obtain ⟨he, ho⟩ := hM.entry c.shared k
  refine ⟨?_, h.always, h.free, ?_, ?_, h.answers⟩
  · rw [List.countP_append, List.countP_singleton, he]
    exact h.one
  · intro pc hpc hh
    rcases List.mem_append.mp hpc with hpc | hpc
    · exact h.inside pc hpc hh
    · rw [List.mem_singleton.mp hpc, he] at hh
      cases hh
  · intro pc hpc hh
    rcases List.mem_append.mp hpc with hpc | hpc
    · exact h.outside pc hpc hh
    · exact List.mem_singleton.mp hpc ▸ ho

section Act

variable {before after : List π} {pc : π} {next : Next π ρ} {s : σ}

theorem locked_of_holds (h : L.Invariant c) (hmem : pc ∈ c.running) (hpc : L.holds pc = true) :
    L.locked c.shared = true := by
  have hpos : 0 < c.running.countP L.holds := List.countP_pos_iff.mpr ⟨pc, hmem, hpc⟩
  rw [h.one] at hpos
  cases hl : L.locked c.shared with
  | true => rfl
  | false =>
    rw [hl] at hpos
    cases hpos

theorem others_wait (h : L.Invariant c) (hrunning : c.running = before ++ pc :: after)
    (hn : (before ++ after).countP L.holds = 0) :
    ∀ pc' ∈ before ++ after, L.Waiting c.shared pc' := by
  intro pc' hpc'
  have hh : L.holds pc' = false := by
    have hnot := List.countP_eq_zero.mp hn pc' hpc'
    exact Bool.eq_false_iff.mpr hnot
  refine ⟨hh, h.outside pc' ?_ hh⟩
  rw [hrunning]
  exact (List.sublist_cons_self pc after).append_left before |>.subset hpc'

theorem rebuilt (h : L.Invariant c) (hM : L.Disciplined M)
    (ho : ∀ pc' ∈ before ++ after, L.Waiting c.shared pc') (ha : L.always s)
    (hg : L.grows c.shared s)
    (hone : next.pcs.countP L.holds = (L.locked s).toNat) (hf : L.locked s = false → L.free s)
    (hin : ∀ pc' ∈ next.pcs, L.holds pc' = true → L.inside s pc')
    (hou : ∀ pc' ∈ next.pcs, L.holds pc' = false → L.outside s pc')
    (han : ∀ answer ∈ next.answers, L.answered s answer) :
    L.Invariant ⟨s, before ++ next.pcs ++ after, c.returned ++ next.answers⟩ := by
  have hn : (before ++ after).countP L.holds = 0 :=
    List.countP_eq_zero.mpr fun pc' hpc' => Bool.eq_false_iff.mp (ho pc' hpc').1
  have hsplit : ∀ pc' ∈ before ++ next.pcs ++ after, pc' ∈ next.pcs ∨ L.Waiting c.shared pc' := by
    intro pc' hpc'
    rw [List.append_assoc, List.mem_append, List.mem_append] at hpc'
    rcases hpc' with hpc' | hpc' | hpc'
    · exact .inr (ho pc' (List.mem_append_left _ hpc'))
    · exact .inl hpc'
    · exact .inr (ho pc' (List.mem_append_right _ hpc'))
  refine ⟨?_, ha, hf, ?_, ?_, ?_⟩
  · rw [List.countP_append] at hn
    rw [List.countP_append, List.countP_append]
    dsimp only
    omega
  · intro pc' hpc' hh
    rcases hsplit pc' hpc' with hnew | hw
    · exact hin pc' hnew hh
    · rw [hw.1] at hh
      cases hh
  · intro pc' hpc' hh
    rcases hsplit pc' hpc' with hnew | hw
    · exact hou pc' hnew hh
    · exact hM.outside_grows _ _ _ hg hw.2
  · intro answer hans
    rcases List.mem_append.mp hans with hold | hnew
    · exact hM.answered_grows _ _ _ hg (h.answers answer hold)
    · exact han answer hnew

theorem of_stays (h : L.Invariant c) (hM : L.Disciplined M)
    (ho : ∀ pc' ∈ before ++ after, L.Waiting c.shared pc') (ha : L.always s)
    (hg : L.grows c.shared s) (hs : L.Stays s next) :
    L.Invariant ⟨s, before ++ next.pcs ++ after, c.returned ++ next.answers⟩ := by
  obtain ⟨pc', rfl, hl, hh, hin⟩ := hs
  refine h.rebuilt hM ho ha hg ?_ ?_ ?_ ?_ ?_
  · rw [Next.pcs_go, List.countP_singleton, hh, hl]
    rfl
  · intro hf
    rw [hl] at hf
    cases hf
  · intro pc'' hpc'' _
    exact List.mem_singleton.mp hpc'' ▸ hin
  · intro pc'' hpc'' hnot
    rw [List.mem_singleton.mp hpc'', hh] at hnot
    cases hnot
  · exact fun _ han => absurd han List.not_mem_nil

theorem of_leaves (h : L.Invariant c) (hM : L.Disciplined M)
    (ho : ∀ pc' ∈ before ++ after, L.Waiting c.shared pc') (ha : L.always s)
    (hg : L.grows c.shared s) (hu : L.locked s = false) (hf : L.free s) (hl : L.Leaves s next) :
    L.Invariant ⟨s, before ++ next.pcs ++ after, c.returned ++ next.answers⟩ := by
  refine h.rebuilt hM ho ha hg ?_ (fun _ => hf) ?_ (fun pc' hpc' _ => (hl.1 pc' hpc').2)
    hl.2
  · rw [hu]
    exact List.countP_eq_zero.mpr fun pc' hpc' => Bool.eq_false_iff.mp (hl.1 pc' hpc').1
  · intro pc' hpc' hh
    rw [(hl.1 pc' hpc').1] at hh
    cases hh

theorem of_unchanged (h : L.Invariant c) (hrunning : c.running = before ++ pc :: after)
    (hpc : L.holds pc = false) (hl : L.Leaves c.shared next) :
    L.Invariant ⟨c.shared, before ++ next.pcs ++ after, c.returned ++ next.answers⟩ := by
  have hn : next.pcs.countP L.holds = 0 :=
    List.countP_eq_zero.mpr fun pc' hpc' => Bool.eq_false_iff.mp (hl.1 pc' hpc').1
  refine ⟨?_, h.always, h.free, forall_running (hrunning ▸ h.inside) ?_,
    forall_running (hrunning ▸ h.outside) fun pc' hpc' _ => (hl.1 pc' hpc').2, ?_⟩
  · have hone := h.one
    rw [hrunning, List.countP_append, List.countP_cons, hpc, if_neg Bool.false_ne_true] at hone
    rw [List.countP_append, List.countP_append, hn]
    exact hone
  · intro pc' hpc' hh
    rw [(hl.1 pc' hpc').1] at hh
    cases hh
  · intro answer ha
    exact (List.mem_append.mp ha).elim (h.answers answer) (hl.2 answer)

end Act

theorem step (h : L.Invariant c) (hM : L.Disciplined M) (hf : M.Fires (fun _ _ => True) c c') :
    L.Invariant c' := by
  cases hf with
  | call k => exact h.call hM k
  | env e => cases e
  | @act before after pc next s hrunning _ hout =>
    have hmem : pc ∈ c.running := Config.mem_running hrunning
    have hone := h.one
    rw [hrunning, List.countP_append, List.countP_cons] at hone
    cases hpc : L.holds pc with
    | false =>
      rcases hM.waits c.shared pc next s h.always ⟨hpc, h.outside pc hmem hpc⟩ hout with
        ⟨rfl, hl⟩ | ⟨hu, hs, ha, hg⟩
      · exact h.of_unchanged hrunning hpc hl
      · rw [hu, Bool.toNat_false] at hone
        have ho := h.others_wait hrunning (by
          rw [List.countP_append]
          omega)
        exact h.of_stays hM ho ha hg (hs (h.free hu))
    | true =>
      rw [hpc, if_pos rfl] at hone
      have ho := h.others_wait hrunning (by
        have hle : (L.locked c.shared).toNat ≤ 1 := Bool.toNat_le _
        rw [List.countP_append]
        omega)
      obtain ⟨ha, hg, hs | ⟨hu, hfr, hl⟩⟩ :=
        hM.works c.shared pc next s h.always (h.locked_of_holds hmem hpc) hpc
          (h.inside pc hmem hpc) hout
      · exact h.of_stays hM ho ha hg hs
      · exact h.of_leaves hM ho ha hg hu hfr hl

theorem step_grows (h : L.Invariant c) (hM : L.Disciplined M) (hr : ∀ s, L.grows s s)
    (hf : M.Fires (fun _ _ => True) c c') : L.grows c.shared c'.shared := by
  cases hf with
  | call k => exact hr _
  | env e => cases e
  | @act before after pc next s hrunning _ hout =>
    have hmem : pc ∈ c.running := Config.mem_running hrunning
    cases hpc : L.holds pc with
    | false =>
      rcases hM.waits c.shared pc next s h.always ⟨hpc, h.outside pc hmem hpc⟩ hout with
        ⟨rfl, -⟩ | ⟨-, -, -, hg⟩
      · exact hr _
      · exact hg
    | true =>
      have hl := h.locked_of_holds hmem hpc
      exact (hM.works c.shared pc next s h.always hl hpc (h.inside pc hmem hpc) hout).2.1

end Invariant

/-- **The run rule for operations under one lock.** -/
theorem Disciplined.run (hM : L.Disciplined M) (h : L.Invariant c) {moves : List (Move κ Empty)}
    (hrun : M.run c moves = some c') : L.Invariant c' :=
  Machine.run_invariant (fun _ _ h => h.step hM) h (Machine.along_true moves c) hrun

theorem Disciplined.run_grows (hM : L.Disciplined M) (h : L.Invariant c)
    (hr : ∀ s, L.grows s s) (ht : ∀ {s₁ s₂ s₃}, L.grows s₁ s₂ → L.grows s₂ s₃ → L.grows s₁ s₃)
    {moves : List (Move κ Empty)} (hrun : M.run c moves = some c') :
    L.grows c.shared c'.shared := by
  have hs : ∀ c₁ c₂, (L.Invariant c₁ ∧ L.grows c.shared c₁.shared) →
      M.Fires (fun _ _ => True) c₁ c₂ → L.Invariant c₂ ∧ L.grows c.shared c₂.shared :=
    fun _ _ ⟨hinv, hg⟩ hf =>
      ⟨hinv.step hM hf, ht hg (hinv.step_grows hM hr hf)⟩
  exact (Machine.run_invariant hs ⟨h, hr _⟩ (Machine.along_true moves c) hrun).2

theorem invariant_start {s : σ} (hu : L.locked s = false) (ha : L.always s)
    (hf : L.free s) : L.Invariant (⟨s, [], []⟩ : Config σ π ρ) :=
  ⟨by rw [hu]; rfl, ha, fun _ => hf, nofun, nofun, nofun⟩

end LockSpec

end Interleave
