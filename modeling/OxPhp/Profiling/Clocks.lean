import Mathlib.Data.List.Induction
import Mathlib.Data.List.Perm.Basic
import OxPhp.Profiling.Context

/-!
# The clocks of a request's spans

Observer events carry the time of `CLOCK_MONOTONIC`; decorators and the forced
close at the end of a request read the wall clock with `now_ns`.  Every finished
span was put on the stack by one act of the request and taken off it by another;
its duration is the time between them exactly if both read one clock.
-/

namespace OxPhp.Profiling

open ByteStr

/-! ## Runs -/

/-- What happens in a request, at instants that no clock is read for yet. -/
inductive Op
  | events (batch : List (OxSpanEvent Nat))
  | push (name : Bytes) (now : Nat)
  | pop (localId : SpanLocalId) (now : Nat)

/-- What the two clocks show at an instant. -/
structure Clocks where
  mono : Nat → Nat
  wall : Nat → Nat

/-- An event with the time that the observer puts into it. -/
def OxSpanEvent.stamped (clocks : Clocks) (ev : OxSpanEvent Nat) : OxSpanEvent Nat :=
  { ev with tsNs := clocks.mono ev.tsNs }

def Op.run (clocks : Clocks) (ctx : ProfilingContext Nat) : Op → ProfilingContext Nat
  | .events batch => ctx.applyEvents (batch.map (·.stamped clocks))
  | .push name now => ctx.push name (clocks.wall now)
  | .pop localId now => (ctx.pop localId (clocks.wall now)).getD ctx

/-- The spans of a request that is finalized at `final`. -/
def request (clocks : Clocks) (ctx : ProfilingContext Nat) (ops : List Op) (final : Nat) :
    SpanTree Nat :=
  (ops.foldl (Op.run clocks) ctx).finalize (clocks.wall final)

/-! ## Acts -/

/-- One thing that happens in a request: an event of a batch, a push or a pop. -/
inductive Act
  | observe (ev : OxSpanEvent Nat)
  | push (name : Bytes) (now : Nat)
  | pop (localId : SpanLocalId) (now : Nat)

inductive ClockName
  | mono
  | wall
  deriving DecidableEq

/-- A clock, and an instant it is read at. -/
abbrev Moment := ClockName × Nat

def Clocks.read (clocks : Clocks) : Moment → Nat
  | (.mono, t) => clocks.mono t
  | (.wall, t) => clocks.wall t

/-- When an act happens, and the clock it takes its time from. -/
def Act.moment : Act → Moment
  | .observe ev => (.mono, ev.tsNs)
  | .push _ now => (.wall, now)
  | .pop _ now => (.wall, now)

def Act.run (clocks : Clocks) (ctx : ProfilingContext Nat) : Act → ProfilingContext Nat
  | .observe ev => ctx.applyEvents [ev.stamped clocks]
  | .push name now => ctx.push name (clocks.wall now)
  | .pop localId now => (ctx.pop localId (clocks.wall now)).getD ctx

def Op.acts : Op → List Act
  | .events batch => batch.map .observe
  | .push name now => [.push name now]
  | .pop localId now => [.pop localId now]

/-- The context after some acts. -/
abbrev runActs (clocks : Clocks) (ctx : ProfilingContext Nat) (acts : List Act) :
    ProfilingContext Nat :=
  acts.foldl (Act.run clocks) ctx

variable {clocks : Clocks} {ctx : ProfilingContext Nat}

/-- A batch of events is applied as its events are one by one. -/
theorem Op.run_eq (op : Op) : op.run clocks ctx = runActs clocks ctx op.acts := by
  cases op with
  | push name now | pop localId now => rfl
  | events batch =>
    change ctx.applyEvents (batch.map _) = runActs clocks ctx (batch.map .observe)
    induction batch generalizing ctx with
    | nil => simp [ProfilingContext.applyEvents]
    | cons ev batch ih =>
      rw [List.map_cons, List.map_cons, runActs, List.foldl_cons, ← runActs, ← ih]
      unfold Act.run ProfilingContext.applyEvents
      by_cases hm : ctx.mode = .profileAll
      · simp [hm, ProfilingContext.applyEvent_mode]
      · simp [hm]

theorem request_eq (ops : List Op) (final : Nat) : request clocks ctx ops final =
    (runActs clocks ctx (ops.flatMap Op.acts)).finalize (clocks.wall final) := by
  rw [request, runActs, List.foldl_flatMap]
  exact congrArg (fun run => (ops.foldl run ctx).finalize _)
    (funext fun ctx => funext fun op => op.run_eq)

/-! ## What an act does to the spans -/

/-- The finished span is the pending one, with its end. -/
def FinishedSpan.Finishes (f : FinishedSpan Nat) (p : PendingSpan Nat) : Prop :=
  ∃ endNs leaked cpuNs memExit memPeak, f = p.finish endNs leaked cpuNs memExit memPeak

/-- The identifiers come from one source; `n` more of them are drawn. -/
structure ProfilingContext.Draws (n : Nat) (ctx ctx' : ProfilingContext Nat) : Prop where
  spanIds : ctx'.spanIds = ctx.spanIds
  rootSpanId : ctx'.rootSpanId = ctx.rootSpanId
  drawn : ctx'.drawn = ctx.drawn + n

/-- An act changes neither list of spans, or it opens a span, or it closes one; a span takes
its start and its end from the acts that open and close it, and its identifier from the next
draw. -/
inductive Touches (now : Nat) (ctx ctx' : ProfilingContext Nat) : Prop
  | nothing (spans : ctx'.spans = ctx.spans) (finished : ctx'.finished = ctx.finished)
      (draws : ctx.Draws 0 ctx')
  | opens {p : PendingSpan Nat} (startNs : p.startNs = now)
      (spanId : p.spanId = ctx.spanIds ctx.drawn)
      (parent : p.parentSpanId = (ctx.spans.getLast?.map (·.spanId)).getD ctx.rootSpanId)
      (spans : ctx'.spans = ctx.spans ++ [p]) (finished : ctx'.finished = ctx.finished)
      (draws : ctx.Draws 1 ctx')
  | closes {p : PendingSpan Nat} {f : FinishedSpan Nat} (endNs : f.endNs = now)
      (finishes : f.Finishes p) (spans : ctx.spans.Perm (p :: ctx'.spans))
      (finished : ctx'.finished = ctx.finished ++ [f]) (draws : ctx.Draws 0 ctx')

/-- The sequence map and the counter of open frames are no spans. -/
theorem Touches.of_track {now observerOpen : Nat} {seqToLocal : List (Nat × SpanLocalId)}
    {ctx ctx' : ProfilingContext Nat} (h : Touches now (ctx.track seqToLocal observerOpen) ctx') :
    Touches now ctx ctx' := by
  cases h with
  | nothing spans finished draws => exact .nothing spans finished ⟨draws.1, draws.2, draws.3⟩
  | opens startNs spanId parent spans finished draws =>
    exact .opens startNs spanId parent spans finished ⟨draws.1, draws.2, draws.3⟩
  | closes endNs finishes spans finished draws =>
    exact .closes endNs finishes spans finished ⟨draws.1, draws.2, draws.3⟩

namespace ProfilingContext

theorem takeSpan_perm {spans rest : List (PendingSpan Nat)} {localId : SpanLocalId}
    {p : PendingSpan Nat} (h : takeSpan spans localId = some (p, rest)) :
    spans.Perm (p :: rest) := by
  unfold takeSpan at h
  split at h
  · cases h
  · next top htop =>
    split at h
    · cases h
      obtain ⟨init, rfl⟩ := List.getLast?_eq_some_iff.mp htop
      rw [List.dropLast_concat]
      exact List.perm_append_singleton _ _
    · split at h
      · cases h
      · obtain ⟨q, hq, heq⟩ := Option.map_eq_some_iff.mp h
        cases heq
        obtain ⟨hi, rfl⟩ := List.getElem?_eq_some_iff.mp hq
        exact (List.getElem_cons_eraseIdx_perm hi).symm

theorem touches_push (name : Bytes) (sample : Sample Nat) :
    Touches sample.tsNs ctx (ctx.pushWithMetrics name sample) :=
  .opens rfl rfl rfl rfl rfl ⟨rfl, rfl, rfl⟩

theorem touches_pop (localId : SpanLocalId) (sample : Sample Nat) :
    Touches sample.tsNs ctx ((ctx.popWithMetrics localId sample).getD ctx) := by
  unfold popWithMetrics
  cases hta : takeSpan ctx.spans localId with
  | none => exact .nothing rfl rfl ⟨rfl, rfl, rfl⟩
  | some r => exact .closes rfl ⟨_, _, _, _, _, rfl⟩ (takeSpan_perm hta) rfl ⟨rfl, rfl, rfl⟩

theorem touches_event (ev : OxSpanEvent Nat) : Touches ev.tsNs ctx (ctx.applyEvent ev) := by
  unfold applyEvent
  split
  · split
    · exact .nothing rfl rfl ⟨rfl, rfl, rfl⟩
    · exact .opens rfl rfl rfl rfl rfl ⟨rfl, rfl, rfl⟩
  · split
    · split
      · exact .nothing rfl rfl ⟨rfl, rfl, rfl⟩
      · split
        · exact .nothing rfl rfl ⟨rfl, rfl, rfl⟩
        · next localId seqToLocal _ => exact (touches_pop localId ev.toSample).of_track
    · exact .nothing rfl rfl ⟨rfl, rfl, rfl⟩

end ProfilingContext

theorem Act.touches (act : Act) : Touches (clocks.read act.moment) ctx (act.run clocks ctx) := by
  cases act with
  | push name now => exact ctx.touches_push name (ProfilingContext.decoratorSample _)
  | pop localId now => exact ctx.touches_pop localId (ProfilingContext.decoratorSample _)
  | observe ev =>
    change Touches _ ctx
      (if ctx.mode ≠ .profileAll then ctx else ctx.applyEvent (ev.stamped clocks))
    split
    · exact .nothing rfl rfl ⟨rfl, rfl, rfl⟩
    · exact ctx.touches_event (ev.stamped clocks)

/-! ## Where a span comes from -/

variable (clocks) (start : ProfilingContext Nat)

/-- Of these acts `opening` put the span on the stack, and it has been there since. -/
inductive Opened (p : PendingSpan Nat) (opening : Act) : List Act → Prop
  | now {acts : List Act} (spans : (runActs clocks start (acts ++ [opening])).spans =
      (runActs clocks start acts).spans ++ [p]) : Opened p opening (acts ++ [opening])
  | before {acts : List Act} {act : Act} (h : Opened p opening acts)
      (mem : p ∈ (runActs clocks start (acts ++ [act])).spans) : Opened p opening (acts ++ [act])

/-- Of these acts `opening` put the span on the stack, and the one at `closing` took it off. -/
inductive Popped (f : FinishedSpan Nat) (opening : Act) : Moment → List Act → Prop
  | now {p : PendingSpan Nat} {acts : List Act} {act : Act}
      (opened : Opened clocks start p opening acts) (finishes : f.Finishes p)
      (spans : (runActs clocks start acts).spans.Perm
        (p :: (runActs clocks start (acts ++ [act])).spans))
      (finished : (runActs clocks start (acts ++ [act])).finished =
        (runActs clocks start acts).finished ++ [f]) : Popped f opening act.moment (acts ++ [act])
  | before {closing : Moment} {acts : List Act} {act : Act} (h : Popped f opening closing acts) :
      Popped f opening closing (acts ++ [act])

/-- The span was open from `opening` to `closing`: an act took it off the stack, or it was
left there for the end of the request. -/
inductive Lived (acts : List Act) (final : Nat) (f : FinishedSpan Nat) (opening : Act) :
    Moment → Prop
  | popped {closing : Moment} (h : Popped clocks start f opening closing acts) :
      Lived acts final f opening closing
  | leaked {p : PendingSpan Nat} (opened : Opened clocks start p opening acts)
      (finishes : f.Finishes p) (leaked : f.leaked = true) :
      Lived acts final f opening (.wall, final)

/-- Every span is known by the acts it comes from, and has their times. -/
structure Traced (acts : List Act) : Prop where
  spans : ∀ p ∈ (runActs clocks start acts).spans, ∃ opening,
    Opened clocks start p opening acts ∧ p.startNs = clocks.read opening.moment
  finished : ∀ f ∈ (runActs clocks start acts).finished, ∃ opening closing,
    Popped clocks start f opening closing acts ∧ f.startNs = clocks.read opening.moment ∧
      f.endNs = clocks.read closing

variable {clocks start}

theorem Traced.step {acts : List Act} (h : Traced clocks start acts) (act : Act) :
    Traced clocks start (acts ++ [act]) := by
  have hrun : runActs clocks start (acts ++ [act]) =
      act.run clocks (runActs clocks start acts) := by
    simp [runActs]
  -- what stays on the stack stays opened, what is finished stays popped
  have hkept {p : PendingSpan Nat} (hp : p ∈ (runActs clocks start (acts ++ [act])).spans)
      (hbefore : p ∈ (runActs clocks start acts).spans) : ∃ opening,
      Opened clocks start p opening (acts ++ [act]) ∧ p.startNs = clocks.read opening.moment := by
    obtain ⟨opening, ho, hs⟩ := h.spans p hbefore
    exact ⟨opening, ho.before hp, hs⟩
  have hdone {f : FinishedSpan Nat} (hf : f ∈ (runActs clocks start acts).finished) :
      ∃ opening closing, Popped clocks start f opening closing (acts ++ [act]) ∧
        f.startNs = clocks.read opening.moment ∧ f.endNs = clocks.read closing := by
    obtain ⟨opening, closing, hpop, hs, he⟩ := h.finished f hf
    exact ⟨opening, closing, hpop.before, hs, he⟩
  have ht : Touches (clocks.read act.moment) (runActs clocks start acts)
      (runActs clocks start (acts ++ [act])) := hrun ▸ act.touches
  constructor
  · intro p hp
    cases ht with
    | nothing spans finished draws => exact hkept hp (spans ▸ hp)
    | opens startNs spanId parent spans finished draws =>
      rw [spans] at hp
      rcases List.mem_append.mp hp with hp' | hp'
      · exact hkept (spans ▸ hp) hp'
      · rw [List.mem_singleton] at hp'
        subst hp'
        exact ⟨act, .now spans, startNs⟩
    | closes endNs finishes spans finished draws =>
      exact hkept hp (spans.mem_iff.mpr (List.mem_cons_of_mem _ hp))
  · intro f hf
    cases ht with
    | nothing spans finished draws => exact hdone (finished ▸ hf)
    | opens startNs spanId parent spans finished draws => exact hdone (finished ▸ hf)
    | closes endNs finishes spans finished draws =>
      rw [finished] at hf
      rcases List.mem_append.mp hf with hf' | hf'
      · exact hdone hf'
      · rw [List.mem_singleton] at hf'
        subst hf'
        obtain ⟨opening, ho, hs⟩ := h.spans _ (spans.mem_iff.mpr List.mem_cons_self)
        refine ⟨opening, _, .now ho finishes spans finished, ?_, endNs⟩
        obtain ⟨_, _, _, _, _, rfl⟩ := finishes
        exact hs

theorem traced (hspans : start.spans = []) (hfinished : start.finished = []) (acts : List Act) :
    Traced clocks start acts := by
  induction acts using List.reverseRecOn with
  | nil => exact ⟨by simp [runActs, hspans], by simp [runActs, hfinished]⟩
  | append_singleton acts act ih => exact ih.step act

/-- A finished span was opened and closed when its times say. -/
theorem lived_of_mem_finished {acts : List Act} {final : Nat} (h : Traced clocks start acts)
    {f : FinishedSpan Nat}
    (hf : f ∈ ((runActs clocks start acts).finalize (clocks.wall final)).finished) :
    ∃ opening closing, Lived clocks start acts final f opening closing ∧
      f.startNs = clocks.read opening.moment ∧ f.endNs = clocks.read closing := by
  rcases List.mem_append.mp hf with hf | hf
  · obtain ⟨opening, closing, hp, hs, he⟩ := h.finished f hf
    exact ⟨opening, closing, .popped hp, hs, he⟩
  · obtain ⟨p, hp, rfl⟩ := List.mem_map.mp hf
    obtain ⟨opening, ho, hs⟩ := h.spans p hp
    exact ⟨opening, _, .leaked ho ⟨_, _, _, _, _, rfl⟩ rfl, hs, rfl⟩

/-! ## Durations -/

/-- Two clocks that advance equally, from `mono` and `wall`. -/
def Clocks.advancing (mono wall : Nat) : Clocks := ⟨(mono + ·), (wall + ·)⟩

theorem read_sub_read_iff (mono wall : Nat) (opening closing : Moment) :
    ((Clocks.advancing mono wall).read closing : Int) - (Clocks.advancing mono wall).read opening =
        closing.2 - opening.2 ↔ opening.1 = closing.1 ∨ mono = wall := by
  obtain ⟨o, i⟩ := opening
  obtain ⟨c, j⟩ := closing
  cases o <;> cases c <;> simp [Clocks.read, Clocks.advancing] <;> omega

/-- Every finished span starts at what the clock of its opening showed then and ends at what
the clock of its closing showed; its duration is the time between the two exactly when they
read one clock, or the clocks agree. -/
theorem duration_eq_elapsed_iff (mono wall : Nat) (spanIds : Nat → SpanId) (mode : ProfilingMode)
    (root : SpanId) (cap : Nat) (ops : List Op) (final : Nat) (f : FinishedSpan Nat)
    (hf : f ∈ (request (.advancing mono wall)
      ((ProfilingContext.new spanIds).reset mode root cap) ops final).finished) :
    ∃ opening closing,
      Lived (.advancing mono wall) ((ProfilingContext.new spanIds).reset mode root cap)
        (ops.flatMap Op.acts) final f opening closing ∧
      f.startNs = (Clocks.advancing mono wall).read opening.moment ∧
      f.endNs = (Clocks.advancing mono wall).read closing ∧
      ((f.endNs : Int) - f.startNs = closing.2 - opening.moment.2 ↔
        opening.moment.1 = closing.1 ∨ mono = wall) := by
  rw [request_eq] at hf
  obtain ⟨opening, closing, hl, hs, he⟩ := lived_of_mem_finished (traced rfl rfl _) hf
  refine ⟨opening, closing, hl, hs, he, ?_⟩
  rw [hs, he]
  exact read_sub_read_iff mono wall opening.moment closing

/-- A call from 3 to 9, a decorator's span from 4 to 6 inside it and one that is left open. -/
def threeSpans : List Op :=
  [.events [⟨⟨3, 0, 0, 0⟩, 1, 1, str "f"⟩], .push (str "g") 4, .pop 2 6, .push (str "h") 7,
    .events [⟨⟨9, 0, 0, 0⟩, 2, 1, []⟩]]

theorem duration_eq_elapsed_iff_call :
    ∃ f ∈ (request (.advancing 0 100) ((ProfilingContext.new fun n => [UInt8.ofNat n]).reset
        .profileAll [] 0) threeSpans 20).finished,
      (f.name, f.startNs, f.endNs) = (str "f", 3, 9) ∧ ∃ opening closing, Lived (.advancing 0 100)
        ((ProfilingContext.new fun n => [UInt8.ofNat n]).reset .profileAll [] 0)
        (threeSpans.flatMap Op.acts) 20 f opening closing := by
  obtain ⟨opening, closing, h, -⟩ := duration_eq_elapsed_iff 0 100 (fun n => [UInt8.ofNat n])
    .profileAll [] 0 threeSpans 20 _ (List.mem_of_getElem? (i := 1) rfl)
  exact ⟨_, List.mem_of_getElem? (i := 1) rfl, by decide, opening, closing, h⟩

/-- A call the observer saw begin at 3 and that is still open at the end, at 8,
with the wall clock 100 ahead: it lasts 105. -/
theorem duration_of_leaked_call :
    (request (Clocks.advancing 0 100) ((ProfilingContext.new fun _ => []).reset .profileAll [] 0)
      [.events [⟨⟨3, 0, 0, 0⟩, 1, 1, str "f"⟩]] 8).finished.map
        (fun s => (s.startNs, s.endNs, s.leaked)) = [(3, 108, true)] := by
  decide

end OxPhp.Profiling
