import OxPhp.Shared.Mutex.BreakSignals

/-!
# What a scan flags

`run_cycle_scan` of `plugins/ox_shared/deadlock.rs`, run on a graph that does not
change meanwhile: it ends, and the threads it flags are the ones that lie on a
cycle of waits with another thread.
-/

namespace OxPhp.Shared.Deadlock

open Interleave Relation Digraph

def Locks.WaitsFor (s : Locks) (t holder : ThreadId) : Prop :=
  ∃ m ∈ s.entries, (∃ w ∈ (s.graph m).waiters, w.tid = t) ∧ (s.graph m).holder = some holder

/-! ## The copy -/

/-- What the copy of the entries seen so far says. -/
structure Copied (s : Locks) (seen : List SharedId) (snap : Snapshot) : Prop where
  waits : ∀ t m, m ∈ snap.waitsOn t ↔ m ∈ seen ∧ ∃ w ∈ (s.graph m).waiters, w.tid = t
  holders : ∀ m, snap.holderOf m = if m ∈ seen then (s.graph m).holder else none

theorem Snapshot.mem_waitsOn {snap : Snapshot} {t : ThreadId} {m : SharedId} :
    m ∈ snap.waitsOn t ↔ ∃ w ∈ snap.waits, w.tid = t ∧ w.mutex = m := by
  simp [waitsOn, and_assoc]

theorem Snapshot.edge_iff {snap : Snapshot} {t holder : ThreadId} :
    snap.Edge t holder ↔ ∃ m ∈ snap.waitsOn t, snap.holderOf m = some holder := by
  constructor
  · rintro ⟨w, hw, htid, hh⟩
    exact ⟨w.mutex, mem_waitsOn.mpr ⟨w, hw, htid, rfl⟩, hh⟩
  · rintro ⟨m, hm, hh⟩
    exact edge_of_waitsOn hm hh

theorem Copied.edge_iff {s : Locks} {seen : List SharedId} {snap : Snapshot}
    (h : Copied s seen snap) (hs : ∀ m, m ∈ seen ↔ m ∈ s.entries) {t holder : ThreadId} :
    snap.Edge t holder ↔ s.WaitsFor t holder := by
  rw [Snapshot.edge_iff]
  constructor
  · rintro ⟨m, hm, hh⟩
    obtain ⟨hmem, hw⟩ := (h.waits t m).mp hm
    rw [h.holders, if_pos hmem] at hh
    exact ⟨m, (hs m).mp hmem, hw, hh⟩
  · rintro ⟨m, hm, hw, hh⟩
    have hmem := (hs m).mpr hm
    refine ⟨m, (h.waits t m).mpr ⟨hmem, hw⟩, ?_⟩
    rw [h.holders, if_pos hmem, hh]

theorem copied_nil (s : Locks) : Copied s [] ⟨[], []⟩ := by
  refine ⟨fun t m => ?_, fun m => rfl⟩
  simp [Snapshot.waitsOn]

theorem Copied.add {s : Locks} {seen : List SharedId} {snap : Snapshot} {id : SharedId}
    (h : Copied s seen snap) (hid : id ∉ seen) :
    Copied s (id :: seen) (snap.add id (s.graph id)) := by
  refine ⟨fun t m => ?_, fun m => ?_⟩
  · have hold := h.waits t m
    rw [Snapshot.mem_waitsOn] at hold ⊢
    simp only [Snapshot.add, List.mem_append, List.mem_map, List.mem_cons]
    constructor
    · rintro ⟨w, hw | ⟨x, hx, rfl⟩, htid, rfl⟩
      · obtain ⟨hs, hwa⟩ := hold.mp ⟨w, hw, htid, rfl⟩
        exact ⟨.inr hs, hwa⟩
      · exact ⟨.inl rfl, x, hx, htid⟩
    · rintro ⟨rfl | hs, x, hx, htid⟩
      · exact ⟨⟨x.tid, m, x.number⟩, .inr ⟨x, hx, rfl⟩, htid, rfl⟩
      · obtain ⟨w, hw, hwt, hmu⟩ := hold.mpr ⟨hs, x, hx, htid⟩
        exact ⟨w, .inl hw, hwt, hmu⟩
  · have hold := h.holders m
    unfold Snapshot.holderOf at hold ⊢
    by_cases hm : m = id
    · subst hm
      rw [if_neg hid] at hold
      rw [if_pos List.mem_cons_self]
      cases hh : (s.graph m).holder with
      | none => simp [Snapshot.add, hh, hold]
      | some holder => simp [Snapshot.add, hh]
    · have hmem : m ∈ id :: seen ↔ m ∈ seen := by simp [hm]
      have hne : (m == id) = false := by simpa using hm
      rw [if_congr hmem rfl rfl, ← hold]
      cases hh : (s.graph id).holder with
      | none => simp [Snapshot.add, hh]
      | some holder => simp [Snapshot.add, hh, List.lookup_cons, hne]

/-! ## The search from one thread -/

section Explore

variable {snap : Snapshot} {start t : ThreadId} {mutexes : List SharedId} {stack : List ThreadId}

theorem Snapshot.explore_keeps : ∀ x ∈ stack, x ∈ (snap.explore start t mutexes stack).2 := by
  induction mutexes generalizing stack with
  | nil => exact fun x hx => hx
  | cons m mutexes ih =>
    intro x hx
    unfold explore
    split
    · exact ih x hx
    · split
      · exact hx
      · exact ih x (List.mem_cons_of_mem _ hx)

theorem Snapshot.explore_pushes (h : (snap.explore start t mutexes stack).1 = false) :
    ∀ m ∈ mutexes, ∀ holder, snap.holderOf m = some holder →
      holder ∈ (snap.explore start t mutexes stack).2 ∧ (holder = start → t = start) := by
  induction mutexes generalizing stack with
  | nil => simp
  | cons m mutexes ih =>
    intro x hx holder hh
    unfold explore at h ⊢
    split at h
    · next hn =>
      rcases List.mem_cons.mp hx with rfl | hx
      · rw [hn] at hh
        cases hh
      · exact ih h x hx holder hh
    · next first hfirst =>
      split at h
      · cases h
      · next hb =>
        rw [if_neg hb]
        rcases List.mem_cons.mp hx with rfl | hx
        · obtain rfl : first = holder := Option.some.inj (hfirst.symm.trans hh)
          refine ⟨explore_keeps first List.mem_cons_self, fun hs => ?_⟩
          by_contra hne
          exact hb ⟨hs, hne⟩
        · exact ih h x hx holder hh

theorem Snapshot.explore_found (h : (snap.explore start t mutexes stack).1 = true) : t ≠ start := by
  induction mutexes generalizing stack with
  | nil => cases h
  | cons m mutexes ih =>
    unfold explore at h
    split at h
    · exact ih h
    · split at h
      · next hs => exact hs.2
      · exact ih h

theorem Snapshot.length_explore_le :
    (snap.explore start t mutexes stack).2.length ≤ stack.length + mutexes.length := by
  induction mutexes generalizing stack with
  | nil => exact Nat.le_refl _
  | cons m mutexes ih =>
    unfold explore
    split
    · have hle := @ih stack
      simp only [List.length_cons]
      omega
    · next holder hh =>
      split
      · simp only
        omega
      · have hle := @ih (holder :: stack)
        simp only [List.length_cons] at hle ⊢
        omega

end Explore

/-- While no way back has been found: the threads that were looked at have their
holders looked at or on the stack, and the start holds nothing they wait for. -/
structure Search.Exploring (w : Search) : Prop where
  seen_start : w.start ∈ w.visited ∨ w.start ∈ w.stack
  closing : ∀ t ∈ w.visited, ∀ holder, w.snapshot.Edge t holder →
    (holder ∈ w.visited ∨ holder ∈ w.stack) ∧ (holder = w.start → t = w.start)

theorem Search.Exploring.not_onCycle {w : Search} (h : w.Exploring) (hs : w.stack = []) :
    ¬OnCycle w.snapshot.Edge w.start := by
  intro hc
  obtain ⟨t, hne, hr, hb⟩ := onCycle_iff.mp hc
  have hst : w.start ∈ w.visited := by simpa [hs] using h.seen_start
  have hcl : ∀ x y, x ∈ w.visited → w.snapshot.Edge x y → y ∈ w.visited := by
    intro x y hx hxy
    simpa [hs] using (h.closing x hx y hxy).1
  have ht : t ∈ w.visited := mem_of_reach (· ∈ w.visited) hst hcl hr
  exact hne ((h.closing t ht _ hb).2 rfl)

theorem Search.Exploring.visit {w : Search} (h : w.Exploring) {t : ThreadId}
    {stack stack' : List ThreadId} (hs : w.stack = t :: stack)
    (he : w.snapshot.explore w.start t (w.snapshot.waitsOn t) stack = (false, stack')) :
    Exploring { w with stack := stack', visited := t :: w.visited } := by
  have hk : ∀ x ∈ stack, x ∈ stack' := by
    intro x hx
    have hmem : x ∈ (w.snapshot.explore w.start t (w.snapshot.waitsOn t) stack).2 :=
      Snapshot.explore_keeps x hx
    rwa [he] at hmem
  have hmo : ∀ x, x ∈ w.visited ∨ x ∈ w.stack → x ∈ t :: w.visited ∨ x ∈ stack' := by
    rintro x (hx | hx)
    · exact .inl (List.mem_cons_of_mem _ hx)
    · rw [hs] at hx
      rcases List.mem_cons.mp hx with rfl | hx
      · exact .inl List.mem_cons_self
      · exact .inr (hk x hx)
  refine ⟨hmo _ h.seen_start, fun x hx holder hed => ?_⟩
  rcases List.mem_cons.mp hx with rfl | hx
  · obtain ⟨m, hm, hh⟩ := Snapshot.edge_iff.mp hed
    have hp := Snapshot.explore_pushes (by rw [he]) m hm holder hh
    rw [he] at hp
    exact ⟨.inr hp.1, hp.2⟩
  · obtain ⟨hse, hb⟩ := h.closing x hx holder hed
    exact ⟨hmo holder hse, hb⟩

theorem Search.Exploring.skip {w : Search} (h : w.Exploring) {t : ThreadId}
    {stack : List ThreadId} (hs : w.stack = t :: stack) (ht : t ∈ w.visited) :
    Exploring { w with stack } := by
  have hm : ∀ x, x ∈ w.visited ∨ x ∈ w.stack → x ∈ w.visited ∨ x ∈ stack := by
    rintro x (hx | hx)
    · exact .inl hx
    · rw [hs] at hx
      rcases List.mem_cons.mp hx with rfl | hx
      · exact .inl ht
      · exact .inr hx
  refine ⟨hm _ h.seen_start, fun x hx holder he => ?_⟩
  obtain ⟨hse, hb⟩ := h.closing x hx holder he
  exact ⟨hm holder hse, hb⟩

/-! ## The scan -/

section Scan

variable (s₀ : Locks) (level : LockDiagnosticsLevel)

/-- What the scan has done to the locks it started from: it has found the threads
`found`, and signalled them, the ones in `pending` excepted, if the level says so. -/
structure Flagged (s : Locks) (found pending : List ThreadId) : Prop where
  detected : ∃ detections, s.detected = s₀.detected ++ detections ∧
    detections.map Detection.start = found
  sound : ∀ t ∈ found, OnCycle s₀.WaitsFor t
  signalled : level = .strict → ∀ t ∈ found, t ∉ pending → (s.breakRequests t).isSome = true
  others : ∀ t, level ≠ .strict ∨ t ∉ found → s.breakRequests t = s₀.breakRequests t

/-- A search that has the rest of the threads still to come. -/
structure Searching (w : Search) (found : List ThreadId) : Prop where
  level_eq : w.level = level
  edges : ∀ t holder, w.snapshot.Edge t holder ↔ s₀.WaitsFor t holder
  walked : w.Walked
  covers : ∀ t, OnCycle s₀.WaitsFor t → t ∈ w.todo ∨ t = w.start ∨ t ∈ found
  exploring : w.start ∈ found ∨ w.Exploring

/-- Where a scan that runs alone can be. -/
def Scans : Next Pc Answer → Locks → Prop
  | .go (.scanStart l), s => l = level ∧ s = s₀
  | .go (.copy l first seen snap), s =>
    l = level ∧ s = s₀ ∧ first = s₀.entries ∧ (∀ m ∈ seen, m ∈ s₀.entries) ∧ Copied s₀ seen snap
  | .go (.nextStart l snap todo), s => ∃ found, Flagged s₀ level s found [] ∧ l = level ∧
    (∀ t holder, snap.Edge t holder ↔ s₀.WaitsFor t holder) ∧
    ∀ t, OnCycle s₀.WaitsFor t → t ∈ todo ∨ t ∈ found
  | .go (.search w), s => ∃ found, Flagged s₀ level s found [] ∧ Searching s₀ level w found
  | .go (.count w), s => ∃ found, Flagged s₀ level s found [] ∧
    OnCycle s₀.WaitsFor w.start ∧ Searching s₀ level w (found ++ [w.start])
  | .go (.loadId w), s => level = .strict ∧ ∃ found, Flagged s₀ level s found [w.start] ∧
    w.start ∈ found ∧ Searching s₀ level w found
  | .go (.signal w _), s => level = .strict ∧ ∃ found, Flagged s₀ level s found [w.start] ∧
    w.start ∈ found ∧ Searching s₀ level w found
  | .ret _, s => ∃ found, Flagged s₀ level s found [] ∧
    ∀ t, OnCycle s₀.WaitsFor t → t ∈ found
  | _, _ => False

variable {s₀ level} {s s' : Locks} {next : Next Pc Answer}

theorem flagged_nil : Flagged s₀ level s₀ [] [] :=
  ⟨⟨[], by simp⟩, by simp, by simp, fun _ _ => rfl⟩

variable {l : LockDiagnosticsLevel} {snap : Snapshot} {t : ThreadId} {w : Search}

theorem scans_scanStart (h : Scans s₀ level (.go (.scanStart l)) s)
    (hout : (next, s') ∈ act (.scanStart l) s) : Scans s₀ level next s' := by
  obtain ⟨rfl, rfl⟩ := h
  rw [act] at hout
  split at hout
  · next he =>
    cases List.mem_singleton.mp hout
    refine ⟨[], flagged_nil, fun t hc => ?_⟩
    obtain ⟨c, -, -, m, hm, -⟩ := onCycle_iff.mp hc
    rw [he] at hm
    cases hm
  · cases List.mem_singleton.mp hout
    exact ⟨rfl, rfl, rfl, by simp, copied_nil s⟩

theorem mem_waiterThreads (he : ∀ t holder, snap.Edge t holder ↔
    s₀.WaitsFor t holder) (hc : OnCycle s₀.WaitsFor t) : t ∈ snap.waiterThreads := by
  obtain ⟨b, -, hout, -⟩ := hc
  obtain ⟨holder, hfirst, -⟩ := TransGen.head'_iff.mp hout
  obtain ⟨w, hw, htid, -⟩ := (he t holder).mpr hfirst
  exact List.mem_eraseDups.mpr (htid ▸ List.mem_map_of_mem hw)

theorem scans_copy {first seen : List SharedId}
    (h : Scans s₀ level (.go (.copy l first seen snap)) s)
    (hout : (next, s') ∈ act (.copy l first seen snap) s) : Scans s₀ level next s' := by
  obtain ⟨rfl, rfl, rfl, hs, hc⟩ := h
  rw [act] at hout
  rcases List.mem_append.mp hout with hout | hout
  · obtain ⟨id, hid, hout⟩ := List.mem_map.mp hout
    cases hout
    obtain ⟨he, hnew⟩ := List.mem_filter.mp hid
    refine ⟨rfl, rfl, rfl, fun m hm => ?_, hc.add (of_decide_eq_true hnew)⟩
    rcases List.mem_cons.mp hm with rfl | hm
    · exact he
    · exact hs m hm
  · split at hout
    · next hall =>
      cases List.mem_singleton.mp hout
      have hw : ∀ m, m ∈ seen ↔ m ∈ s.entries :=
        fun m => ⟨hs m, fun hm => of_decide_eq_true (List.all_eq_true.mp hall m hm)⟩
      have hed : ∀ t holder, snap.Edge t holder ↔ s.WaitsFor t holder :=
        fun t holder => hc.edge_iff hw
      exact ⟨[], flagged_nil, rfl, hed, fun t hcy => .inl (mem_waiterThreads hed hcy)⟩
    · cases hout

theorem scans_nextStart {todo : List ThreadId} (h : Scans s₀ level (.go (.nextStart l snap todo)) s)
    (hout : (next, s') ∈ act (.nextStart l snap todo) s) : Scans s₀ level next s' := by
  obtain ⟨found, hf, rfl, he, hc⟩ := h
  dsimp only [act] at hout
  split at hout
  · cases List.mem_singleton.mp hout
    exact ⟨found, hf, fun t hcy => (hc t hcy).resolve_left List.not_mem_nil⟩
  · obtain ⟨start, -, hout⟩ := List.mem_map.mp hout
    cases hout
    refine ⟨found, hf, rfl, he, ?_, fun t hcy => ?_, .inr ⟨?_, ?_⟩⟩
    · intro t ht
      cases List.mem_singleton.mp ht
      exact .refl
    · rcases hc t hcy with ht | ht
      · by_cases hs : t = start
        · exact .inr (.inl hs)
        · exact .inl ((List.mem_erase_of_ne hs).mpr ht)
      · exact .inr (.inr ht)
    · exact .inr List.mem_cons_self
    · simp

theorem Searching.onCycle_iff {found : List ThreadId} (h : Searching s₀ level w found) :
    OnCycle w.snapshot.Edge t ↔ OnCycle s₀.WaitsFor t := by
  have he : w.snapshot.Edge = s₀.WaitsFor :=
    funext fun t => funext fun holder => propext (h.edges t holder)
  rw [he]

theorem scans_search (h : Scans s₀ level (.go (.search w)) s)
    (hout : (next, s') ∈ act (.search w) s) : Scans s₀ level next s' := by
  obtain ⟨found, hf, hs⟩ := h
  rw [act] at hout
  cases List.mem_singleton.mp hout
  unfold actSearch
  split
  · next hst =>
    refine ⟨found, hf, hs.level_eq, hs.edges, fun t hc => ?_⟩
    rcases hs.covers t hc with ht | rfl | ht
    · exact .inl ht
    · rcases hs.exploring with hfo | he
      · exact .inr hfo
      · exact absurd (hs.onCycle_iff.mpr hc) (he.not_onCycle hst)
    · exact .inr ht
  next t stack hst =>
  have ht : ReflTransGen w.snapshot.Edge w.start t := hs.walked t (hst ▸ List.mem_cons_self)
  have hr : ∀ x ∈ stack, ReflTransGen w.snapshot.Edge w.start x :=
    fun x hx => hs.walked x (hst ▸ List.mem_cons_of_mem _ hx)
  split
  · next hv =>
    exact ⟨found, hf, hs.level_eq, hs.edges, hr, hs.covers,
      hs.exploring.imp_right fun he => he.skip hst hv⟩
  · obtain ⟨hp, hfo⟩ :=
      w.snapshot.explore_spec w.start (w.snapshot.waitsOn t) stack fun m hm => hm
    cases hex : w.snapshot.explore w.start t (w.snapshot.waitsOn t) stack with
    | mk hit stack' =>
      rw [hex] at hp hfo
      have hw : ∀ x ∈ stack', ReflTransGen w.snapshot.Edge w.start x := by
        intro x hx
        rcases hp x hx with hx | hx
        · exact hr x hx
        · exact ht.tail hx
      cases hit with
      | true =>
        have hne : t ≠ w.start := Snapshot.explore_found (by rw [hex])
        have hc : OnCycle w.snapshot.Edge w.start :=
          Digraph.onCycle_iff.mpr ⟨t, hne, ht, hfo rfl⟩
        refine ⟨found, hf, hs.onCycle_iff.mp hc, hs.level_eq, hs.edges,
          hw, fun x hx => ?_, .inl (List.mem_append_right _ List.mem_cons_self)⟩
        rcases hs.covers x hx with hx | hx | hx
        · exact .inl hx
        · exact .inr (.inl hx)
        · exact .inr (.inr (List.mem_append_left _ hx))
      | false =>
        exact ⟨found, hf, hs.level_eq, hs.edges, hw, hs.covers,
          hs.exploring.imp_right fun he => he.visit hst hex⟩

theorem scans_count (h : Scans s₀ level (.go (.count w)) s)
    (hout : (next, s') ∈ act (.count w) s) : Scans s₀ level next s' := by
  obtain ⟨found, hf, hc, hs⟩ := h
  rw [act] at hout
  cases List.mem_singleton.mp hout
  obtain ⟨detections, hd, hst⟩ := hf.detected
  have hfo : ∃ detections', s.detected ++ [⟨w.snapshot, w.start⟩] =
      s₀.detected ++ detections' ∧ detections'.map Detection.start = found ++ [w.start] := by
    refine ⟨detections ++ [⟨w.snapshot, w.start⟩], ?_, ?_⟩
    · rw [hd, List.append_assoc]
    · rw [List.map_append, hst]
      rfl
  have hso : ∀ t ∈ found ++ [w.start], OnCycle s₀.WaitsFor t := by
    intro t ht
    rcases List.mem_append.mp ht with ht | ht
    · exact hf.sound t ht
    · rw [List.mem_singleton.mp ht]
      exact hc
  have ho : ∀ t, level ≠ .strict ∨ t ∉ found ++ [w.start] →
      s.breakRequests t = s₀.breakRequests t := by
    intro t ht
    refine hf.others t (ht.imp_right fun hnot hmem => ?_)
    exact hnot (List.mem_append_left _ hmem)
  by_cases hstr : w.level = .strict
  · rw [if_pos hstr]
    refine ⟨hs.level_eq.symm.trans hstr, found ++ [w.start],
      ⟨hfo, hso, fun hl t ht hp => ?_, ho⟩,
      List.mem_append_right _ List.mem_cons_self, hs⟩
    rcases List.mem_append.mp ht with ht | ht
    · exact hf.signalled hl t ht List.not_mem_nil
    · exact absurd ht hp
  · rw [if_neg hstr]
    exact ⟨found ++ [w.start],
      ⟨hfo, hso, fun hl => absurd (hs.level_eq.trans hl) hstr, ho⟩, hs⟩

theorem scans_signal {cycleId : UInt64} (h : Scans s₀ level (.go (.signal w cycleId)) s)
    (hout : (next, s') ∈ act (.signal w cycleId) s) : Scans s₀ level next s' := by
  obtain ⟨hs, found, hf, hfo, hse⟩ := h
  rw [act] at hout
  cases List.mem_singleton.mp hout
  refine ⟨found, ⟨hf.detected, hf.sound, fun hl t ht _ => ?_, fun t ht => ?_⟩, hse⟩
  · by_cases hst : t = w.start
    · subst hst
      simp
    · have hso := hf.signalled hl t ht (by simpa using hst)
      simpa [Function.update_of_ne hst] using hso
  · have hnot : t ∉ found := ht.resolve_left fun hl => hl hs
    have hst : t ≠ w.start := fun heq => hnot (heq ▸ hfo)
    simpa [Function.update_of_ne hst] using hf.others t ht

theorem scans_step {pc : Pc} (h : Scans s₀ level (.go pc) s) (hout : (next, s') ∈ act pc s) :
    Scans s₀ level next s' := by
  cases pc with
  | scanStart l => exact scans_scanStart h hout
  | copy l first seen snap => exact scans_copy h hout
  | nextStart l snap todo => exact scans_nextStart h hout
  | search w => exact scans_search h hout
  | count w => exact scans_count h hout
  | loadId w =>
    cases List.mem_singleton.mp hout
    exact h
  | signal w cycleId => exact scans_signal h hout
  | _ => exact h.elim

end Scan

/-! ## The scan ends -/

/-- What is left of a search: the stack, and the waits that can still be pushed. -/
def Search.work (w : Search) : Nat :=
  w.stack.length + (w.snapshot.waits.filter fun x => x.tid ∉ w.visited).length

theorem length_filter_visit {waits : List Wait} {visited : List ThreadId} {t : ThreadId}
    (ht : t ∉ visited) : (waits.filter fun x => x.tid ∉ t :: visited).length +
        (waits.filter fun x => x.tid == t).length =
      (waits.filter fun x => x.tid ∉ visited).length := by
  induction waits with
  | nil => rfl
  | cons x waits ih =>
    by_cases hx : x.tid = t
    · simp only [List.filter_cons, hx, ht, List.mem_cons, true_or, not_true, decide_false,
        Bool.false_eq_true, if_false, not_false_eq_true, decide_true, if_true, beq_self_eq_true,
        List.length_cons]
      simp only [List.mem_cons] at ih
      omega
    · by_cases hs : x.tid ∈ visited
      · simpa [List.filter_cons, hx, hs] using ih
      · simp only [List.filter_cons, hx, hs, List.mem_cons, or_self, not_false_eq_true,
          decide_true, if_true, beq_eq_false_iff_ne.mpr hx, Bool.false_eq_true, if_false,
          List.length_cons]
        simp only [List.mem_cons] at ih
        omega

theorem Search.work_visit_lt {w : Search} {t : ThreadId} {stack : List ThreadId}
    (hs : w.stack = t :: stack) (ht : t ∉ w.visited) : Search.work { w with
        stack := (w.snapshot.explore w.start t (w.snapshot.waitsOn t) stack).2
        visited := t :: w.visited } < w.work := by
  have hp : (w.snapshot.explore w.start t (w.snapshot.waitsOn t) stack).2.length ≤
      stack.length + (w.snapshot.waitsOn t).length := Snapshot.length_explore_le
  have hw : (w.snapshot.waitsOn t).length =
      (w.snapshot.waits.filter fun x => x.tid == t).length := List.length_map _
  have hsplit := @length_filter_visit w.snapshot.waits w.visited t ht
  simp only [Search.work, hs, List.length_cons]
  omega

section Ends

variable {level : LockDiagnosticsLevel} {snap : Snapshot}

theorem ends_search {w : Search}
    (hn : ∀ s, machine.Ends (.go (.nextStart w.level w.snapshot w.todo)) s) :
    ∀ s, machine.Ends (.go (.search w)) s := by
  induction hw : w.work using Nat.strong_induction_on generalizing w with
  | _ n ih =>
    intro s
    subst hw
    refine .step rfl ?_
    unfold actSearch
    split
    · exact hn s
    next t stack hs =>
    split
    · refine ih _ ?_ (w := { w with stack }) hn rfl s
      simp only [Search.work, hs, List.length_cons]
      omega
    next hv =>
    have hlt := Search.work_visit_lt hs hv
    cases he : w.snapshot.explore w.start t (w.snapshot.waitsOn t) stack with
    | mk hit stack' =>
      rw [he] at hlt
      have hr := ih _ hlt (w := { w with stack := stack', visited := t :: w.visited }) hn rfl
      cases hit with
      | false => exact hr s
      | true =>
        -- counted, signalled at the strict level, and searched on
        refine .step rfl ?_
        split
        · exact .step rfl (.step rfl (hr _))
        · exact hr _

theorem ends_nextStart {todo : List ThreadId} :
    ∀ s, machine.Ends (.go (.nextStart level snap todo)) s := by
  induction hlength : todo.length generalizing todo with
  | zero =>
    intro s
    cases List.length_eq_zero_iff.mp hlength
    exact .step rfl (.ret _ _)
  | succ n ih =>
    intro s
    cases todo with
    | nil => cases hlength
    | cons t todo =>
      refine .go (by simp [machine, act]) fun next s' hout => ?_
      obtain ⟨start, hs, hout⟩ := List.mem_map.mp hout
      cases hout
      refine ends_search (ih ?_) s
      rw [List.length_erase_of_mem hs, hlength]
      rfl

theorem length_filter_unseen_lt {entries seen : List SharedId} {id : SharedId}
    (hid : id ∈ entries.filter fun x => x ∉ seen) :
    (entries.filter fun x => x ∉ id :: seen).length <
      (entries.filter fun x => x ∉ seen).length := by
  have hf : (entries.filter fun x => x ∉ id :: seen) =
      (entries.filter fun x => x ∉ seen).filter fun x => x ≠ id := by
    rw [List.filter_filter]
    congr 1
    funext x
    simp
  rw [hf]
  exact List.length_filter_lt_length_iff_exists.mpr ⟨id, hid, by simp⟩

theorem ends_copy {s : Locks} {seen : List SharedId} :
    machine.Ends (.go (.copy level s.entries seen snap)) s := by
  induction hu : (s.entries.filter fun id => id ∉ seen).length
    using Nat.strong_induction_on generalizing seen snap with
  | _ n ih =>
    subst hu
    refine .go ?_ fun next s' hout => ?_
    · intro hs
      obtain ⟨hn, hall⟩ := List.append_eq_nil_iff.mp hs
      have hse : (s.entries.all fun id => id ∈ seen) = true := by
        simpa using hn
      rw [if_pos hse] at hall
      cases hall
    · rcases List.mem_append.mp hout with hout | hout
      · obtain ⟨id, hid, hout⟩ := List.mem_map.mp hout
        cases hout
        exact ih _ (length_filter_unseen_lt hid) rfl
      · split at hout
        · cases List.mem_singleton.mp hout
          exact ends_nextStart s
        · cases hout

theorem ends_scan (s : Locks) : machine.Ends (.go (Call.scan level).start) s := by
  by_cases he : s.entries = []
  · exact .step (if_pos he) (.ret _ _)
  · exact .step (if_neg he) ends_copy

end Ends

/-! ## What it flags -/

/-- **Exactly the threads on a cycle.** A scan of a graph that stays as it is ends; the
starts of the cycles it counts are the threads that lie on a cycle of waits with another
thread; at the strict level these have a break request, and no other request changes. -/
theorem scan_flags_onCycle (level : LockDiagnosticsLevel) (s : Locks) :
    machine.Ends (.go (Call.scan level).start) s ∧
      ∀ answer s', machine.Solo (.go (Call.scan level).start) s answer s' →
        ∃ detections, s'.detected = s.detected ++ detections ∧
          (∀ t, t ∈ detections.map Detection.start ↔ OnCycle s.WaitsFor t) ∧
          (level = .strict → ∀ t, OnCycle s.WaitsFor t → (s'.breakRequests t).isSome = true) ∧
          ∀ t, level ≠ .strict ∨ ¬OnCycle s.WaitsFor t →
            s'.breakRequests t = s.breakRequests t := by
  refine ⟨ends_scan s, fun answer s' hs => ?_⟩
  obtain ⟨found, hf, hc⟩ :=
    hs.invariant (P := Scans s level) scans_step ⟨rfl, rfl⟩
  obtain ⟨detections, hd, rfl⟩ := hf.detected
  refine ⟨detections, hd, fun t => ⟨hf.sound t, hc t⟩, ?_, ?_⟩
  · intro hst t hcy
    exact hf.signalled hst t (hc t hcy) List.not_mem_nil
  · intro t ht
    exact hf.others t (ht.imp_right fun hnot hmem => hnot (hf.sound t hmem))

/-- Threads 1 and 2 hold a Mutex each and wait for the other's; thread 3 waits for
thread 1. -/
def standoff : Locks :=
  { idle fresh with
    graph := fun m =>
      if m = 1 then ⟨some 1, [⟨2, 0⟩, ⟨3, 2⟩]⟩
      else if m = 2 then ⟨some 2, [⟨1, 1⟩]⟩ else ⟨none, []⟩
    entries := [1, 2] }

theorem standoff_waitsFor {t holder : ThreadId} :
    standoff.WaitsFor t holder ↔ (holder = 1 ∧ (t = 2 ∨ t = 3)) ∨ (holder = 2 ∧ t = 1) := by
  simp only [Locks.WaitsFor, standoff, List.mem_cons, List.not_mem_nil, or_false]
  constructor
  · rintro ⟨m, rfl | rfl, ⟨w, hw, rfl⟩, hh⟩
    · have hwa : w = ⟨2, 0⟩ ∨ w = ⟨3, 2⟩ := by simpa using hw
      refine .inl ⟨(Option.some.inj hh).symm, ?_⟩
      rcases hwa with rfl | rfl
      · exact .inl rfl
      · exact .inr rfl
    · have hwa : w = ⟨1, 1⟩ := by simpa using hw
      exact .inr ⟨(Option.some.inj hh).symm, by rw [hwa]⟩
  · rintro (⟨rfl, rfl | rfl⟩ | ⟨rfl, rfl⟩)
    · exact ⟨1, .inl rfl, ⟨⟨2, 0⟩, by simp⟩, rfl⟩
    · exact ⟨1, .inl rfl, ⟨⟨3, 2⟩, by simp⟩, rfl⟩
    · exact ⟨2, .inr rfl, ⟨⟨1, 1⟩, by simp⟩, rfl⟩

theorem standoff_onCycle : OnCycle standoff.WaitsFor 1 ∧ ¬OnCycle standoff.WaitsFor 3 := by
  constructor
  · exact ⟨2, by decide, .single (standoff_waitsFor.mpr (by decide)),
      .single (standoff_waitsFor.mpr (by decide))⟩
  · intro hc
    obtain ⟨c, -, -, hb⟩ := onCycle_iff.mp hc
    simpa using standoff_waitsFor.mp hb

/-- A scan of the standoff signals thread 1 and leaves thread 3, which only leads into
the cycle, alone. -/
theorem scan_flags_onCycle_standoff :
    ∃ answer s', machine.Solo (.go (Call.scan .strict).start) standoff answer s' ∧
      (s'.breakRequests 1).isSome = true ∧ s'.breakRequests 3 = none := by
  obtain ⟨he, hf⟩ := scan_flags_onCycle .strict standoff
  obtain ⟨answer, s', hs⟩ := he.exists_solo
  obtain ⟨-, -, -, hsi, ho⟩ := hf answer s' hs
  exact ⟨answer, s', hs, hsi rfl 1 standoff_onCycle.1,
    ho 3 (.inr standoff_onCycle.2)⟩

end OxPhp.Shared.Deadlock
