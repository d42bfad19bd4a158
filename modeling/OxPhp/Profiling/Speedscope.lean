import Mathlib.Data.List.Sort
import Mathlib.Data.List.TakeWhile
import OxPhp.Profiling.Clocks

/-!
# The Speedscope export

`profiling/export/speedscope.rs` rebuilds the call tree from the intervals of the
finished spans, with a stack of the frames still open.  Its events pair up last
opened, first closed whatever the intervals are; their times are in order
exactly when no two spans cross by a microsecond.
-/

namespace OxPhp.Profiling

open ByteStr

/-! ## The export -/

structure SpeedscopeEvent where
  isOpen : Bool
  time : Nat
  frame : Nat
  deriving DecidableEq

/-- A stack entry: the frame, the end of its span and when it closes. -/
structure OpenFrame where
  frame : Nat
  endNs : Nat
  closeUs : Nat

def OpenFrame.close (f : OpenFrame) : SpeedscopeEvent := ⟨false, f.closeUs, f.frame⟩

namespace SpanTree

variable (tree : SpanTree Nat)

def profileStartNs : Nat :=
  if tree.finished.isEmpty then 0
  else (tree.finished.map (·.startNs)).foldl min (2 ^ 64 - 1)

def profileEndNs : Nat := (tree.finished.map (·.endNs)).foldl max 0

def us (ns : Nat) : Nat := (ns - tree.profileStartNs) / 1000

def frames : List Bytes :=
  tree.finished.foldl (fun fs s => if fs.contains s.name then fs else fs ++ [s.name]) []

def opening (span : FinishedSpan Nat) : SpeedscopeEvent :=
  ⟨true, tree.us span.startNs, tree.frames.idxOf span.name⟩

def openFrame (span : FinishedSpan Nat) : OpenFrame :=
  ⟨tree.frames.idxOf span.name, span.endNs, tree.us span.endNs⟩

/-- The events from a stack of open frames, the top first: each span closes
those that have ended when it starts. -/
def emit : List OpenFrame → List (FinishedSpan Nat) → List SpeedscopeEvent
  | stack, [] => stack.map OpenFrame.close
  | stack, span :: rest =>
    (stack.takeWhile (·.endNs ≤ span.startNs)).map OpenFrame.close ++
      tree.opening span ::
        emit (tree.openFrame span :: stack.dropWhile (·.endNs ≤ span.startNs)) rest

end SpanTree

/-- `start_ns` ascending, then `end_ns` descending. -/
def StartsBefore (a b : FinishedSpan Nat) : Prop :=
  a.startNs < b.startNs ∨ a.startNs = b.startNs ∧ b.endNs ≤ a.endNs

instance : DecidableRel StartsBefore := fun a b =>
  inferInstanceAs (Decidable (a.startNs < b.startNs ∨ a.startNs = b.startNs ∧ b.endNs ≤ a.endNs))

structure SpeedscopeProfile where
  frames : List Bytes
  events : List SpeedscopeEvent
  endValue : Nat

def exportSpeedscope (tree : SpanTree Nat) : SpeedscopeProfile where
  frames := tree.frames
  events := tree.emit [] (tree.finished.insertionSort StartsBefore)
  endValue := (tree.profileEndNs - tree.profileStartNs) / 1000

/-- What is still open after some events, if each closes the frame opened last. -/
def replay : List Nat → List SpeedscopeEvent → Option (List Nat)
  | stack, [] => some stack
  | stack, ⟨true, _, frame⟩ :: events => replay (frame :: stack) events
  | [], ⟨false, _, _⟩ :: _ => none
  | top :: stack, ⟨false, _, frame⟩ :: events => if top = frame then replay stack events else none

/-! ## Opens and closes -/

namespace SpanTree

variable {tree : SpanTree Nat} {stack : List OpenFrame} {spans : List (FinishedSpan Nat)}

theorem emit_cons (tree : SpanTree Nat) (stack : List OpenFrame) (span : FinishedSpan Nat)
    (rest : List (FinishedSpan Nat)) :
    ∃ closed kept, stack = closed ++ kept ∧ (∀ f ∈ closed, f.endNs ≤ span.startNs) ∧
      (∀ f ∈ kept.head?, span.startNs < f.endNs) ∧
      tree.emit stack (span :: rest) = closed.map OpenFrame.close ++
        tree.opening span :: tree.emit (tree.openFrame span :: kept) rest := by
  refine ⟨_, _, (List.takeWhile_append_dropWhile (p := (·.endNs ≤ span.startNs))).symm,
    fun f hf => by simpa using List.mem_takeWhile_imp hf, fun f hf => ?_, rfl⟩
  have hh := List.head?_dropWhile_not (·.endNs ≤ span.startNs) stack
  rw [Option.mem_def.mp hf] at hh
  simpa using hh

theorem replay_close (closed kept : List OpenFrame) (events : List SpeedscopeEvent) :
    replay ((closed ++ kept).map (·.frame)) (closed.map OpenFrame.close ++ events) =
      replay (kept.map (·.frame)) events := by
  induction closed with
  | nil => rfl
  | cons f closed ih => simpa [replay, OpenFrame.close] using ih

theorem replay_emit : replay (stack.map (·.frame)) (tree.emit stack spans) = some [] := by
  induction spans generalizing stack with
  | nil => simpa [emit, replay] using replay_close stack [] []
  | cons span rest ih =>
    obtain ⟨closed, kept, rfl, -, -, he⟩ := emit_cons tree stack span rest
    rw [he, replay_close]
    have hr := @ih (tree.openFrame span :: kept)
    exact hr

theorem filter_isOpen_emit :
    (tree.emit stack spans).filter (·.isOpen) = spans.map tree.opening := by
  induction spans generalizing stack with
  | nil => simp [emit, OpenFrame.close]
  | cons span rest ih => simp [emit, ih, opening, OpenFrame.close]

theorem filter_not_isOpen_emit : List.Perm ((tree.emit stack spans).filter (!·.isOpen))
    ((stack ++ spans.map tree.openFrame).map OpenFrame.close) := by
  have hc (l : List OpenFrame) :
      (l.map OpenFrame.close).filter (!·.isOpen) = l.map OpenFrame.close :=
    List.filter_eq_self.mpr (by simp [OpenFrame.close])
  induction spans generalizing stack with
  | nil => simp [emit, hc]
  | cons span rest ih =>
    obtain ⟨closed, kept, rfl, -, -, he⟩ := emit_cons tree stack span rest
    rw [he, List.filter_append, hc, List.filter_cons_of_neg (by simp [opening])]
    simp only [List.append_assoc, List.map_append, List.map_cons] at ih ⊢
    refine .append_left _ (ih.trans ?_)
    exact List.perm_middle.symm

theorem sublist_emit : List.Sublist (stack.map OpenFrame.close) (tree.emit stack spans) := by
  induction spans generalizing stack with
  | nil => simp [emit]
  | cons span rest ih =>
    obtain ⟨closed, kept, rfl, -, -, he⟩ := emit_cons tree stack span rest
    rw [he, List.map_append]
    have hr := @ih (tree.openFrame span :: kept)
    exact .append (.refl _) (.cons _ ((List.sublist_cons_self ..).trans hr))

/-! ## Times -/

theorem us_mono {x y : Nat} (h : x ≤ y) : tree.us x ≤ tree.us y :=
  Nat.div_le_div_right (Nat.sub_le_sub_right h _)

/-- A later span that starts before an earlier one ends does not outlast it. -/
def Inside (tree : SpanTree Nat) (a b : FinishedSpan Nat) : Prop :=
  b.startNs < a.endNs → tree.us b.endNs ≤ tree.us a.endNs

theorem pairwise_emit (hst : (stack.map (·.closeUs)).Pairwise (· ≤ ·))
    (hc : ∀ f ∈ stack, f.closeUs = tree.us f.endNs)
    (ho : ∀ f ∈ stack, ∀ s ∈ spans, s.startNs < f.endNs → tree.us s.endNs ≤ f.closeUs)
    (hsp : spans.Pairwise fun a b => a.startNs ≤ b.startNs ∧ tree.Inside a b)
    (hen : ∀ s ∈ spans, s.startNs ≤ s.endNs) :
    ((tree.emit stack spans).map (·.time)).Pairwise (· ≤ ·) ∧
      ∀ lo, (∀ f ∈ stack, lo ≤ f.closeUs) → (∀ s ∈ spans, lo ≤ tree.us s.startNs) →
        ∀ e ∈ tree.emit stack spans, lo ≤ e.time := by
  induction spans generalizing stack with
  | nil =>
    refine ⟨by simpa [emit, OpenFrame.close, Function.comp_def] using hst, fun lo hlo _ e he => ?_⟩
    obtain ⟨f, hf, rfl⟩ := List.mem_map.mp he
    exact hlo f hf
  | cons span rest ih =>
    obtain ⟨closed, kept, rfl, hended, hopen, hem⟩ := emit_cons tree stack span rest
    obtain ⟨hfirst, hr⟩ := List.pairwise_cons.mp hsp
    rw [List.map_append, List.pairwise_append] at hst
    obtain ⟨hcl, hk, -⟩ := hst
    -- what stays open outlasts the span
    have hlast : ∀ f ∈ kept, tree.us span.startNs ≤ f.closeUs ∧ tree.us span.endNs ≤ f.closeUs := by
      cases kept with
      | nil => simp
      | cons top kept =>
        have htop := hopen top rfl
        have hle : tree.us span.startNs ≤ top.closeUs := by
          rw [hc top (by simp)]
          exact us_mono htop.le
        have hin := ho top (by simp) span (by simp) htop
        intro f hf
        rcases List.mem_cons.mp hf with rfl | hf
        · exact ⟨hle, hin⟩
        · have ha := (List.pairwise_cons.mp hk).1 _ (List.mem_map_of_mem hf)
          exact ⟨hle.trans ha, hin.trans ha⟩
    obtain ⟨hl, hlo⟩ := @ih (tree.openFrame span :: kept)
      (List.pairwise_cons.mpr ⟨by simpa [openFrame] using fun f hf => (hlast f hf).2, hk⟩)
      (by simpa [openFrame] using fun f hf => hc f (by simp [hf]))
      (by
        intro f hf s hs
        rcases List.mem_cons.mp hf with rfl | hf
        · exact (hfirst s hs).2
        · exact ho f (by simp [hf]) s (by simp [hs]))
      hr (fun s hs => hen s (by simp [hs]))
    have haf : ∀ e ∈ tree.emit (tree.openFrame span :: kept) rest,
        tree.us span.startNs ≤ e.time := by
      refine hlo _ ?_ fun s hs => us_mono (hfirst s hs).1
      simpa [openFrame, us_mono (hen span (by simp))] using fun f hf => (hlast f hf).1
    have hb : ∀ f ∈ closed, f.closeUs ≤ tree.us span.startNs := fun f hf => by
      rw [hc f (by simp [hf])]
      exact us_mono (hended f hf)
    rw [hem]
    constructor
    · simp only [List.map_append, List.map_map, List.map_cons]
      refine List.pairwise_append.mpr ⟨hcl, List.pairwise_cons.mpr ⟨?_, hl⟩, ?_⟩
      · simpa [opening] using haf
      · simp only [List.mem_map, List.mem_cons, Function.comp_apply]
        rintro _ ⟨f, hf, rfl⟩ _ (rfl | ⟨e, he, rfl⟩)
        · exact hb f hf
        · exact (hb f hf).trans (haf e he)
    · intro lo hst hstarts e he
      have hcut : lo ≤ tree.us span.startNs := hstarts span (by simp)
      rcases List.mem_append.mp he with he | he
      · obtain ⟨f, hf, rfl⟩ := List.mem_map.mp he
        exact hst f (by simp [hf])
      · rcases List.mem_cons.mp he with rfl | he
        · exact hcut
        · exact hcut.trans (haf e he)

theorem inside_of_pairwise (ht : ((tree.emit stack spans).map (·.time)).Pairwise (· ≤ ·))
    (hsp : spans.Pairwise (·.startNs ≤ ·.startNs)) {f : OpenFrame} (hf : f ∈ stack)
    {s : FinishedSpan Nat} (hs : s ∈ spans) (hlt : s.startNs < f.endNs) :
    tree.us s.endNs ≤ f.closeUs := by
  induction spans generalizing stack with
  | nil => cases hs
  | cons span rest ih =>
    obtain ⟨closed, kept, rfl, he, -, hem⟩ := emit_cons tree stack span rest
    obtain ⟨hfirst, hr⟩ := List.pairwise_cons.mp hsp
    have hle : span.startNs ≤ s.startNs := by
      rcases List.mem_cons.mp hs with rfl | hs
      · exact le_rfl
      · exact hfirst s hs
    have hk : f ∈ kept := by
      refine (List.mem_append.mp hf).resolve_left fun hc => ?_
      have := he f hc
      omega
    rw [hem, List.map_append, List.map_cons] at ht
    have hl := (List.pairwise_cons.mp (List.pairwise_append.mp ht).2.1).2
    rcases List.mem_cons.mp hs with rfl | hs
    · have hsub := hl.sublist
        ((@sublist_emit tree (tree.openFrame s :: kept) rest).map (·.time))
      exact (List.pairwise_cons.mp hsub).1 _ (List.mem_map_of_mem (List.mem_map_of_mem hk))
    · exact ih hl hr (List.mem_cons_of_mem _ hk) hs

theorem pairwise_emit_iff (hsp : spans.Pairwise (·.startNs ≤ ·.startNs))
    (he : ∀ s ∈ spans, s.startNs ≤ s.endNs) :
    ((tree.emit [] spans).map (·.time)).Pairwise (· ≤ ·) ↔ spans.Pairwise tree.Inside := by
  constructor
  · intro ht
    generalize ([] : List OpenFrame) = stack at ht
    induction spans generalizing stack with
    | nil => exact .nil
    | cons span rest ih =>
      obtain ⟨closed, kept, rfl, -, -, hem⟩ := emit_cons tree stack span rest
      obtain ⟨-, hr⟩ := List.pairwise_cons.mp hsp
      rw [hem, List.map_append, List.map_cons] at ht
      have hl := (List.pairwise_cons.mp (List.pairwise_append.mp ht).2.1).2
      refine List.pairwise_cons.mpr ⟨fun s hs hlt => ?_,
        ih hr (fun s hs => he s (by simp [hs])) _ hl⟩
      exact inside_of_pairwise hl hr List.mem_cons_self hs hlt
  · intro hin
    refine (pairwise_emit .nil (by simp) (by simp) ?_ he).1
    exact hsp.and hin

theorem startsBefore_total (a b : FinishedSpan Nat) : StartsBefore a b ∨ StartsBefore b a := by
  unfold StartsBefore
  omega

theorem startsBefore_trans {a b c : FinishedSpan Nat} (hab : StartsBefore a b)
    (hbc : StartsBefore b c) : StartsBefore a c := by
  unfold StartsBefore at *
  omega

/-- Two spans cross by a microsecond: one starts inside the other and ends
after it. -/
def Crosses (tree : SpanTree Nat) (a b : FinishedSpan Nat) : Prop :=
  a.startNs < b.startNs ∧ b.startNs < a.endNs ∧ tree.us a.endNs < tree.us b.endNs

theorem pairwise_inside_iff (hs : spans.Pairwise StartsBefore) :
    spans.Pairwise tree.Inside ↔ ∀ a ∈ spans, ∀ b ∈ spans, ¬ tree.Crosses a b := by
  constructor
  · intro h a ha b hb ⟨hlt, hin, ho⟩
    induction spans with
    | nil => cases ha
    | cons s spans ih =>
      obtain ⟨hfirst, hr⟩ := List.pairwise_cons.mp hs
      obtain ⟨hins, h⟩ := List.pairwise_cons.mp h
      rcases List.mem_cons.mp ha with rfl | ha' <;> rcases List.mem_cons.mp hb with rfl | hb'
      · omega
      · exact absurd (hins b hb' hin) (by omega)
      · have := hfirst a ha'
        unfold StartsBefore at this
        omega
      · exact ih hr h ha' hb'
  · intro h
    refine hs.imp_of_mem fun {a b} ha hb hab hin => ?_
    rcases hab with hlt | ⟨-, hle⟩
    · exact Nat.le_of_not_lt fun ho => h a ha b hb ⟨hlt, hin, ho⟩
    · exact us_mono hle

end SpanTree

/-! ## Runs on one clock -/

/-- No open span starts after an instant still to come, and no finished one ends
before it starts. -/
structure Timely (coming : List Nat) (ctx : ProfilingContext Nat) : Prop where
  opened : ∀ p ∈ ctx.spans, ∀ t ∈ coming, p.startNs ≤ t
  closed : ∀ s ∈ ctx.finished, s.startNs ≤ s.endNs

theorem Timely.step {now : Nat} {coming : List Nat} {ctx ctx' : ProfilingContext Nat}
    (h : Timely (now :: coming) ctx) (hnow : ∀ t ∈ coming, now ≤ t) (ht : Touches now ctx ctx') :
    Timely coming ctx' := by
  have hopened : ∀ p ∈ ctx.spans, ∀ t ∈ coming, p.startNs ≤ t :=
    fun p hp t ht => h.opened p hp t (List.mem_cons_of_mem _ ht)
  cases ht with
  | nothing spans finished draws => exact ⟨spans ▸ hopened, finished ▸ h.closed⟩
  | opens startNs spanId parent spans finished draws =>
    refine ⟨fun p hp t ht => ?_, finished ▸ h.closed⟩
    rw [spans] at hp
    rcases List.mem_append.mp hp with hp | hp
    · exact hopened p hp t ht
    · rw [List.mem_singleton.mp hp, startNs]
      exact hnow t ht
  | closes endNs finishes spans finished draws =>
    refine ⟨fun p hp => hopened p (spans.mem_iff.mpr (List.mem_cons_of_mem _ hp)), fun s hs => ?_⟩
    rw [finished] at hs
    rcases List.mem_append.mp hs with hs | hs
    · exact h.closed s hs
    · obtain ⟨_, _, _, _, _, rfl⟩ := finishes
      rw [List.mem_singleton.mp hs, endNs]
      exact h.opened _ (spans.mem_iff.mpr List.mem_cons_self) _ List.mem_cons_self

def Op.instants : Op → List Nat
  | .events batch => batch.map (·.tsNs)
  | .push _ now | .pop _ now => [now]

theorem Op.instants_eq (op : Op) : op.instants = op.acts.map (·.moment.2) := by
  cases op <;> simp [instants, acts, Act.moment]

/-- The two clocks are one, and show the instants themselves. -/
def Clocks.one : Clocks := ⟨id, id⟩

theorem Clocks.read_one (moment : Moment) : one.read moment = moment.2 := by
  obtain ⟨clock, t⟩ := moment
  cases clock <;> rfl

theorem Timely.run {acts : List Act} {coming : List Nat} {ctx : ProfilingContext Nat}
    (h : Timely (acts.map (·.moment.2) ++ coming) ctx)
    (hc : (acts.map (·.moment.2) ++ coming).Pairwise (· ≤ ·)) :
    Timely coming (runActs .one ctx acts) := by
  induction acts generalizing ctx with
  | nil => exact h
  | cons act acts ih =>
    obtain ⟨hnow, hc⟩ := List.pairwise_cons.mp hc
    have ht := @Act.touches .one ctx act
    rw [Clocks.read_one] at ht
    exact ih (h.step hnow ht) hc

theorem request_start_le_end {spanIds : Nat → SpanId} {mode : ProfilingMode} {root : SpanId}
    {cap : Nat} {ops : List Op} {final : Nat}
    (hc : (ops.flatMap Op.instants ++ [final]).Pairwise (· ≤ ·)) :
    ∀ s ∈ (request .one ((ProfilingContext.new spanIds).reset mode root cap) ops final).finished,
      s.startNs ≤ s.endNs := by
  have hi : ops.flatMap Op.instants = (ops.flatMap Op.acts).map (·.moment.2) := by
    rw [List.map_flatMap]
    exact List.flatMap_congr fun op _ => op.instants_eq
  rw [hi] at hc
  have h : Timely [final] (runActs .one _ (ops.flatMap Op.acts)) :=
    @Timely.run _ _ ((ProfilingContext.new spanIds).reset mode root cap)
      ⟨by simp [ProfilingContext.reset], by simp [ProfilingContext.reset]⟩ hc
  rw [request_eq]
  intro s hs
  rcases List.mem_append.mp hs with hs | hs
  · exact h.closed s hs
  · obtain ⟨p, hp, rfl⟩ := List.mem_map.mp hs
    exact h.opened p hp final (by simp)

theorem le_foldl_max (l : List Nat) (m : Nat) : m ≤ l.foldl max m ∧ ∀ x ∈ l, x ≤ l.foldl max m := by
  induction l generalizing m with
  | nil => simp
  | cons y l ih =>
    obtain ⟨hm, hl⟩ := ih (max m y)
    refine ⟨(le_max_left ..).trans hm, fun x hx => ?_⟩
    rcases List.mem_cons.mp hx with rfl | hx
    · exact (le_max_right ..).trans hm
    · exact hl x hx

/-- In every run of pushes and pops on one clock that never steps back, each span
opens and closes one frame, a close closes the frame opened last, and the times
lie within the profile; they are in order exactly when no two spans cross. -/
theorem exportSpeedscope_events (spanIds : Nat → SpanId) (mode : ProfilingMode) (root : SpanId)
    (cap : Nat) (ops : List Op) (final : Nat)
    (hclock : (ops.flatMap Op.instants ++ [final]).Pairwise (· ≤ ·)) :
    let tree := request .one ((ProfilingContext.new spanIds).reset mode root cap) ops final
    let profile := exportSpeedscope tree
    (profile.events.filter (·.isOpen)).Perm (tree.finished.map tree.opening) ∧
      (profile.events.filter (!·.isOpen)).Perm
        (tree.finished.map fun s => (tree.openFrame s).close) ∧
      replay [] profile.events = some [] ∧
      (∀ e ∈ profile.events, e.time ≤ profile.endValue) ∧
      ((profile.events.map (·.time)).Pairwise (· ≤ ·) ↔
        ∀ a ∈ tree.finished, ∀ b ∈ tree.finished, ¬ tree.Crosses a b) := by
  intro tree profile
  have hp := List.perm_insertionSort StartsBefore tree.finished
  have hso : (tree.finished.insertionSort StartsBefore).Pairwise StartsBefore :=
    haveI : Std.Total StartsBefore := ⟨SpanTree.startsBefore_total⟩
    haveI : IsTrans _ StartsBefore := ⟨fun _ _ _ => SpanTree.startsBefore_trans⟩
    List.pairwise_insertionSort ..
  have hen : ∀ s ∈ tree.finished, s.startNs ≤ s.endNs := request_start_le_end hclock
  have ho : (profile.events.filter (·.isOpen)).Perm (tree.finished.map tree.opening) := by
    rw [show profile.events.filter _ = _ from SpanTree.filter_isOpen_emit]
    exact hp.map _
  have hc : (profile.events.filter (!·.isOpen)).Perm
      (tree.finished.map fun s => (tree.openFrame s).close) := by
    refine SpanTree.filter_not_isOpen_emit.trans ?_
    rw [List.nil_append, List.map_map]
    exact hp.map _
  refine ⟨ho, hc, @SpanTree.replay_emit tree [] _, fun e he => ?_, ?_⟩
  · have hin : ∀ s ∈ tree.finished, tree.us s.endNs ≤ profile.endValue := fun s hs =>
      SpanTree.us_mono ((le_foldl_max ..).2 _ (List.mem_map_of_mem hs))
    cases hopen : e.isOpen with
    | true =>
      obtain ⟨s, hs, rfl⟩ := List.mem_map.mp (ho.mem_iff.mp (List.mem_filter.mpr ⟨he, hopen⟩))
      exact (SpanTree.us_mono (hen s hs)).trans (hin s hs)
    | false =>
      obtain ⟨s, hs, rfl⟩ := List.mem_map.mp
        (hc.mem_iff.mp (List.mem_filter.mpr ⟨he, by simp [hopen]⟩))
      exact hin s hs
  · have hst : (tree.finished.insertionSort StartsBefore).Pairwise (·.startNs ≤ ·.startNs) :=
      hso.imp fun h => by unfold StartsBefore at h; omega
    refine (SpanTree.pairwise_emit_iff hst fun s hs => hen s (hp.mem_iff.mp hs)).trans ?_
    rw [SpanTree.pairwise_inside_iff hso]
    simp only [hp.mem_iff]

theorem exportSpeedscope_events_nested :
    replay [] (exportSpeedscope (request .one ((ProfilingContext.new fun n => [UInt8.ofNat n]).reset
      .apmOnly [] 0) [.push (str "a") 0, .push (str "b") 10, .pop 2 20, .pop 1 30] 40)).events =
        some [] :=
  (exportSpeedscope_events (fun n => [UInt8.ofNat n]) .apmOnly [] 0 [.push (str "a") 0,
    .push (str "b") 10, .pop 2 20, .pop 1 30] 40 (by decide)).2.2.1

/-- Two spans of which the first is popped first: its close event comes last,
but has the earlier time. -/
theorem exportSpeedscope_crossing :
    (exportSpeedscope (request .one ((ProfilingContext.new fun n => [UInt8.ofNat n]).reset .apmOnly
        [] 0) [.push (str "a") 0, .push (str "b") 1000, .pop 1 2000, .pop 2 3000] 3000)).events =
      [⟨true, 0, 0⟩, ⟨true, 1, 1⟩, ⟨false, 3, 1⟩, ⟨false, 2, 0⟩] := by
  decide

end OxPhp.Profiling
