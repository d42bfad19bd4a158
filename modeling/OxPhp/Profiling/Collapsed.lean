import Mathlib.Algebra.BigOperators.Ring.List
import OxPhp.Lib.Numeral
import OxPhp.Lib.Trim
import OxPhp.Profiling.Clocks

/-!
# The collapsed-stack export

`profiling/export/collapsed.rs` writes one line for each finished span, with the
names of its call path and the span's own duration.  A flame graph adds to the
width of a frame every line below it, so the export would need durations without
those of the calls inside; and a name with a newline in it is read as two lines.
-/

namespace OxPhp.Profiling

open ByteStr Numeral

/-! ## The export -/

inductive CollapsedMetric
  | wall
  | cpu
  | mem

def CollapsedMetric.value (span : FinishedSpan Nat) : CollapsedMetric → Option Nat
  | wall => some ((span.endNs - span.startNs) / 1000)
  | cpu => if span.cpuNs = 0 then none else some (span.cpuNs / 1000)
  | mem =>
    let delta := max (span.memExit - span.memEnter) 0
    if delta ≤ 0 then none else some delta.toNat

abbrev semicolon : UInt8 := 59
def decimal (s : Bytes) : Nat := s.foldl (fun acc b => acc * 10 + (b.toNat - 48)) 0

/-- The sum of all lines that have the frames as a prefix. -/
def width (lines : List (List Bytes × Nat)) (frames : List Bytes) : Nat :=
  ((lines.filter fun l => frames <+: l.1).map (·.2)).sum

section Tree

variable {tree : SpanTree Nat} {fuel : Nat}

end Tree

/-! ## Parent links end -/

section Linked

variable (spanIds : Nat → SpanId) (root : SpanId) {clocks : Clocks}

/-- A span has the identifier of its draw, and its parent's was drawn before. -/
def DrawnAfter (drawn : Nat) (spanId parent : SpanId) : Prop :=
  ∃ n < drawn, spanId = spanIds n ∧ (parent = root ∨ ∃ m < n, parent = spanIds m)

/-- All spans of a request come after their parents. -/
structure Linked (ctx : ProfilingContext Nat) : Prop where
  source : ctx.spanIds = spanIds ∧ ctx.rootSpanId = root
  spans : ∀ p ∈ ctx.spans, DrawnAfter spanIds root ctx.drawn p.spanId p.parentSpanId
  finished : ∀ f ∈ ctx.finished, DrawnAfter spanIds root ctx.drawn f.spanId f.parentSpanId

variable {spanIds root}

theorem DrawnAfter.mono {m n : Nat} {spanId parent : SpanId}
    (h : DrawnAfter spanIds root m spanId parent) (hle : m ≤ n) :
    DrawnAfter spanIds root n spanId parent := by
  obtain ⟨k, hk, h⟩ := h
  exact ⟨k, by omega, h⟩

theorem Linked.step {now : Nat} {ctx ctx' : ProfilingContext Nat} (h : Linked spanIds root ctx)
    (ht : Touches now ctx ctx') : Linked spanIds root ctx' := by
  obtain ⟨⟨hids, hroot⟩, hspans, hfinished⟩ := h
  cases ht with
  | nothing spans finished draws =>
    refine ⟨⟨draws.spanIds.trans hids, draws.rootSpanId.trans hroot⟩, ?_, ?_⟩
    · rw [spans, draws.drawn]
      exact hspans
    · rw [finished, draws.drawn]
      exact hfinished
  | opens startNs spanId parent spans finished draws =>
    refine ⟨⟨draws.spanIds.trans hids, draws.rootSpanId.trans hroot⟩, fun p hp => ?_,
      fun f hf => ?_⟩
    · rw [spans] at hp
      rw [draws.drawn]
      rcases List.mem_append.mp hp with hp | hp
      · exact (hspans p hp).mono (Nat.le_succ _)
      · rw [List.mem_singleton.mp hp, spanId, parent, hids, hroot]
        refine ⟨ctx.drawn, Nat.lt_succ_self _, rfl, ?_⟩
        -- the parent is the span on top of the stack, if there is one
        cases htop : ctx.spans.getLast? with
        | none => exact .inl rfl
        | some top =>
          obtain ⟨m, hm, hid, -⟩ := hspans top (List.mem_of_getLast? htop)
          exact .inr ⟨m, hm, hid⟩
    · rw [draws.drawn]
      exact (hfinished f (finished ▸ hf)).mono (Nat.le_succ _)
  | closes endNs finishes spans finished draws =>
    refine ⟨⟨draws.spanIds.trans hids, draws.rootSpanId.trans hroot⟩, fun p hp => ?_,
      fun f hf => ?_⟩
    · rw [draws.drawn]
      exact hspans p (spans.mem_iff.mpr (List.mem_cons_of_mem _ hp))
    · rw [finished] at hf
      rw [draws.drawn]
      rcases List.mem_append.mp hf with hf | hf
      · exact hfinished f hf
      · obtain ⟨_, _, _, _, _, rfl⟩ := finishes
        rw [List.mem_singleton.mp hf]
        exact hspans _ (spans.mem_iff.mpr List.mem_cons_self)

theorem Touches.drawn_le {now : Nat} {ctx ctx' : ProfilingContext Nat}
    (ht : Touches now ctx ctx') : ctx'.drawn ≤ ctx.drawn + 1 := by
  cases ht with
  | nothing _ _ draws | opens _ _ _ _ _ draws | closes _ _ _ _ draws =>
    have := draws.drawn
    omega

theorem Linked.run {ctx : ProfilingContext Nat} (h : Linked spanIds root ctx) (acts : List Act) :
    Linked spanIds root (runActs clocks ctx acts) ∧
      (runActs clocks ctx acts).drawn ≤ ctx.drawn + acts.length := by
  induction acts generalizing ctx with
  | nil => exact ⟨h, le_rfl⟩
  | cons act acts ih =>
    have ht := @Act.touches clocks ctx act
    obtain ⟨hl, hd⟩ := ih (h.step ht)
    have := ht.drawn_le
    refine ⟨hl, ?_⟩
    simp only [runActs, List.foldl_cons, List.length_cons] at hd ⊢
    omega

end Linked

/-! ## Widths -/

section Tree

variable {tree : SpanTree Nat} {fuel : Nat} {out : Bytes}

end Tree

end OxPhp.Profiling
