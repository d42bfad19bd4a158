import Mathlib.Data.List.Nodup
import OxPhp.Profiling.Context

/-!
# What the observer's events record

A well-nested stream of observer events is a forest of calls.  Whatever batches
it arrives in, the finished spans are its calls down to the depth cap, in the
order they return, and the parent links of a span lead through the calls that
were open when it was made.
-/

namespace OxPhp.Profiling

open ByteStr

variable {T : Type}

/-! ## Calls -/

/-- The calls made one after the other in a frame, each with the events of its
begin and end and the calls made inside it. -/
inductive Calls (T : Type)
  | nil
  | call (enter : OxSpanEvent T) (inner : Calls T) (leave : OxSpanEvent T) (rest : Calls T)

/-- A call with the begin events of the calls around it, innermost first. -/
structure Nested (T : Type) where
  enter : OxSpanEvent T
  leave : OxSpanEvent T
  enclosing : List (OxSpanEvent T)

namespace Calls

/-- The events of the calls, in order. -/
def events : Calls T → List (OxSpanEvent T)
  | nil => []
  | call enter inner leave rest => enter :: inner.events ++ leave :: rest.events

/-- The sequence numbers of the calls. -/
def seqs : Calls T → List Nat
  | nil => []
  | call enter inner _ rest => enter.seq :: inner.seqs ++ rest.seqs

/-- Each call begins and ends with events of its own number. -/
def Paired : Calls T → Prop
  | nil => True
  | call enter inner leave rest =>
    enter.kind = spanEventKindBegin ∧ leave.kind = spanEventKindEnd ∧
      leave.seq = enter.seq ∧ enter.seq ≠ 0 ∧ inner.Paired ∧ rest.Paired

/-- The stream of the calls is well nested and its sequence numbers are fresh. -/
structure WellNested (calls : Calls T) : Prop where
  paired : calls.Paired
  fresh : calls.seqs.Nodup

/-- Every call in the order of their ends, inside the calls `around`. -/
def nested (around : List (OxSpanEvent T)) : Calls T → List (Nested T)
  | nil => []
  | call enter inner leave rest =>
    inner.nested (enter :: around) ++ ⟨enter, leave, around⟩ :: rest.nested around

end Calls

def Nested.depth (c : Nested T) : Nat := c.enclosing.length + 1

/-- The calls nested at depth at most `cap`. -/
def Calls.recorded (cap : Nat) (around : List (OxSpanEvent T)) (calls : Calls T) :
    List (Nested T) :=
  (calls.nested around).filter (·.depth ≤ cap)

/-- The identifiers of the span made for a sequence number. -/
abbrev Ids := Nat → SpanLocalId × SpanId

/-- The span of the innermost call around, or the root. -/
def parentId (ids : Ids) (root : SpanId) (around : List (OxSpanEvent T)) : SpanId :=
  (around.head?.map fun b => (ids b.seq).2).getD root

/-- The span that records a call: the values of its own two events, below the
span of the call around it. -/
def Nested.span (ids : Ids) (root : SpanId) (c : Nested T) : FinishedSpan T where
  localId := (ids c.enter.seq).1
  spanId := (ids c.enter.seq).2
  parentSpanId := parentId ids root c.enclosing
  name := readName c.enter
  startNs := c.enter.tsNs
  endNs := c.leave.tsNs
  leaked := false
  cpuNs := c.leave.cpuNs - c.enter.cpuNs
  memEnter := c.enter.mem
  memExit := c.leave.mem
  memPeak := max c.enter.memPeak c.leave.memPeak

/-- The open span of a call. -/
def pendingSpan (ids : Ids) (root : SpanId) (enter : OxSpanEvent T)
    (around : List (OxSpanEvent T)) : PendingSpan T where
  localId := (ids enter.seq).1
  spanId := (ids enter.seq).2
  parentSpanId := parentId ids root around
  name := readName enter
  startNs := enter.tsNs
  cpuStartNs := enter.cpuNs
  memEnter := enter.mem
  memPeakEnter := enter.memPeak

/-- The stack of spans while the calls `around` are open. -/
def openSpans (ids : Ids) (root : SpanId) : List (OxSpanEvent T) → List (PendingSpan T)
  | [] => []
  | enter :: around => openSpans ids root around ++ [pendingSpan ids root enter around]

/-- The context while the recorded calls `around` are open: the span stack, the
sequence map and the depth counter are in step. -/
structure InStep (ids : Ids) (cap : Nat) (root : SpanId) (around : List (OxSpanEvent T))
    (ctx : ProfilingContext T) : Prop where
  spans : ctx.spans = openSpans ids root around
  seqToLocal : ctx.seqToLocal = around.reverse.map fun b => (b.seq, (ids b.seq).1)
  observerOpen : ctx.observerOpen = around.length
  maxDepth : ctx.maxDepth = cap
  rootSpanId : ctx.rootSpanId = root

section Congr

variable {ids ids' : Ids} {root : SpanId} {around : List (OxSpanEvent T)}

theorem parentId_congr (h : ∀ b ∈ around, ids' b.seq = ids b.seq) :
    parentId ids' root around = parentId ids root around := by
  cases around with
  | nil => rfl
  | cons b _ => simp [parentId, h b List.mem_cons_self]

theorem openSpans_congr (h : ∀ b ∈ around, ids' b.seq = ids b.seq) :
    openSpans ids' root around = openSpans ids root around := by
  induction around with
  | nil => rfl
  | cons b around ih =>
    have ht : ∀ c ∈ around, ids' c.seq = ids c.seq :=
      fun c hc => h c (List.mem_cons_of_mem _ hc)
    simp [openSpans, pendingSpan, ih ht, parentId_congr ht, h b List.mem_cons_self]

theorem InStep.congr {cap : Nat} {ctx : ProfilingContext T} (hs : InStep ids cap root around ctx)
    (h : ∀ b ∈ around, ids' b.seq = ids b.seq) : InStep ids' cap root around ctx where
  spans := by rw [hs.spans, openSpans_congr h]
  seqToLocal := by
    rw [hs.seqToLocal]
    exact List.map_congr_left fun b hb => by rw [h b (List.mem_reverse.mp hb)]
  observerOpen := hs.observerOpen
  maxDepth := hs.maxDepth
  rootSpanId := hs.rootSpanId

theorem Nested.span_congr {c : Nested T} (hc : ids' c.enter.seq = ids c.enter.seq)
    (h : ∀ b ∈ c.enclosing, ids' b.seq = ids b.seq) : c.span ids' root = c.span ids root := by
  simp [Nested.span, hc, parentId_congr h]

end Congr

/-! ## Calls of the forest -/

namespace Calls

variable {around : List (OxSpanEvent T)} {calls : Calls T} {c : Nested T}

theorem mem_nested (h : c ∈ calls.nested around) : c.enter.seq ∈ calls.seqs ∧
      ∃ outer, c.enclosing = outer ++ around ∧ ∀ b ∈ outer, b.seq ∈ calls.seqs := by
  induction calls generalizing around with
  | nil => cases h
  | call enter inner leave rest ihi ihr =>
    simp only [nested, List.mem_append, List.mem_cons] at h
    rcases h with h | rfl | h
    · obtain ⟨hseq, outer, henc, ho⟩ := ihi h
      refine ⟨by simp [seqs, hseq], outer ++ [enter], by simp [henc], fun b hb => ?_⟩
      rcases List.mem_append.mp hb with hb | hb
      · simp [seqs, ho b hb]
      · simp [seqs, List.mem_singleton.mp hb]
    · exact ⟨by simp [seqs], [], rfl, by simp⟩
    · obtain ⟨hseq, outer, henc, ho⟩ := ihr h
      exact ⟨by simp [seqs, hseq], outer, henc, fun b hb => by simp [seqs, ho b hb]⟩

theorem enclosing_mem {b : OxSpanEvent T} {outer : List (OxSpanEvent T)}
    (h : c ∈ calls.nested around) (henc : c.enclosing = b :: outer ++ around) :
    ∃ p ∈ calls.nested around, p.enter = b ∧ p.enclosing = outer ++ around := by
  induction calls generalizing around outer with
  | nil => cases h
  | call enter inner leave rest ihi ihr =>
    simp only [nested, List.mem_append, List.mem_cons] at h ⊢
    rcases h with h | rfl | h
    · obtain ⟨-, between, hb, -⟩ := mem_nested h
      have hs : b :: outer = between ++ [enter] := by
        rw [henc, List.append_cons between enter around] at hb
        exact List.append_cancel_right hb
      cases between with
      | nil =>
        -- made directly inside `enter`
        obtain ⟨rfl, rfl⟩ := List.cons.inj hs
        exact ⟨⟨b, leave, around⟩, .inr (.inl rfl), rfl, rfl⟩
      | cons b' between =>
        obtain ⟨rfl, rfl⟩ := List.cons.inj hs
        obtain ⟨p, hp, hpe⟩ := ihi h (by simpa using henc)
        exact ⟨p, .inl hp, by simpa using hpe⟩
    · exact absurd (congrArg List.length henc) (by simp; omega)
    · obtain ⟨p, hp, hpe⟩ := ihr h henc
      exact ⟨p, .inr (.inr hp), hpe⟩

theorem recorded_call {cap : Nat} {enter leave : OxSpanEvent T} {inner rest : Calls T}
    (h : around.length < cap) : (call enter inner leave rest).recorded cap around =
      inner.recorded cap (enter :: around) ++
        ⟨enter, leave, around⟩ :: rest.recorded cap around := by
  rw [recorded, nested, List.filter_append, List.filter_cons_of_pos]
  · rfl
  · exact decide_eq_true h

theorem recorded_eq_nil {cap : Nat} (h : cap ≤ around.length) : calls.recorded cap around = [] := by
  refine List.filter_eq_nil_iff.mpr fun c hc => ?_
  obtain ⟨-, outer, henc, -⟩ := mem_nested hc
  simp [Nested.depth, henc]
  omega

end Calls

/-! ## One event -/

namespace ProfilingContext

theorem takeSeq_concat (l : List (Nat × SpanLocalId)) (seq : Nat) (localId : SpanLocalId) :
    takeSeq (l ++ [(seq, localId)]) seq = some (localId, l) := by
  simp [takeSeq, rposition, swapRemove, List.findIdx?_cons]

theorem takeSeq_eq_none {l : List (Nat × SpanLocalId)} {seq : Nat} (h : ∀ e ∈ l, e.1 ≠ seq) :
    takeSeq l seq = none := by
  have hn : l.reverse.findIdx? (·.1 = seq) = none := by
    simpa [List.findIdx?_eq_none_iff] using h
  simp [takeSeq, rposition, hn]

theorem takeSpan_concat (spans : List (PendingSpan T)) (top : PendingSpan T) :
    takeSpan (spans ++ [top]) top.localId = some (top, spans) := by
  simp [takeSpan]

variable {ids : Ids} {cap : Nat} {root : SpanId} {around : List (OxSpanEvent T)}
  {ctx : ProfilingContext T}

/-- A begin below the cap opens a span. -/
theorem applyEvent_begin {enter : OxSpanEvent T} (hs : InStep ids cap root around ctx)
    (hr : around.length < cap) (hcap : cap ≤ 32) (hkind : enter.kind = spanEventKindBegin)
    (hf : ∀ b ∈ around, b.seq ≠ enter.seq) :
    ∃ own, InStep (Function.update ids enter.seq own) cap root (enter :: around)
        (ctx.applyEvent enter) ∧ (ctx.applyEvent enter).finished = ctx.finished := by
  have hd : ¬ (ctx.maxDepth ≠ 0 ∧ ctx.maxDepth ≤ ctx.observerOpen) := by
    rw [hs.maxDepth, hs.observerOpen]
    omega
  have hp : (ctx.spans.getLast?.map (·.spanId)).getD ctx.rootSpanId =
      parentId ids root around := by
    rw [hs.spans, hs.rootSpanId]
    cases around <;> simp [openSpans, pendingSpan, parentId]
  have hsa : ∀ b ∈ around, Function.update ids enter.seq
      (ctx.nextId, ctx.spanIds ctx.drawn) b.seq = ids b.seq :=
    fun b hb => Function.update_of_ne (hf b hb) ..
  have hst := hs.congr hsa
  have hlen : ctx.seqToLocal.length = around.length := by simp [hs.seqToLocal]
  refine ⟨(ctx.nextId, ctx.spanIds ctx.drawn), ⟨?_, ?_, ?_, ?_, ?_⟩, ?_⟩ <;>
    simp only [applyEvent, hkind, if_true, if_neg hd, track, pushWithMetrics]
  · rw [hp, hst.spans]
    simp [openSpans, pendingSpan, parentId_congr hsa]
  · rw [if_neg (by simp [hlen]; omega), hst.seqToLocal]
    simp
  · rw [hs.observerOpen, List.length_cons]
    omega
  · exact hs.maxDepth
  · exact hs.rootSpanId

/-- The end of the innermost call finishes its span. -/
theorem applyEvent_end {enter leave : OxSpanEvent T}
    (hs : InStep ids cap root (enter :: around) ctx)
    (hkind : leave.kind = spanEventKindEnd) (hseq : leave.seq = enter.seq) (hne : enter.seq ≠ 0) :
    InStep ids cap root around (ctx.applyEvent leave) ∧ (ctx.applyEvent leave).finished =
        ctx.finished ++ [Nested.span ids root ⟨enter, leave, around⟩] := by
  have hmap : takeSeq ctx.seqToLocal enter.seq = some ((ids enter.seq).1,
      around.reverse.map fun b => (b.seq, (ids b.seq).1)) := by
    rw [hs.seqToLocal, List.reverse_cons, List.map_append]
    exact takeSeq_concat ..
  have ht : takeSpan ctx.spans (ids enter.seq).1 =
      some (pendingSpan ids root enter around, openSpans ids root around) := by
    rw [hs.spans]
    exact takeSpan_concat _ (pendingSpan ids root enter around)
  have hend : ¬ spanEventKindEnd = spanEventKindBegin := by decide
  simp only [applyEvent, hkind, hend, if_false, if_true, hseq, hne, hmap, track, popWithMetrics,
    ht, Option.map_some, Option.getD_some]
  exact ⟨⟨rfl, rfl, by simp [hs.observerOpen], hs.maxDepth, hs.rootSpanId⟩, rfl⟩

/-- Calls made at the depth cap leave no trace. -/
theorem foldl_calls_capped {calls : Calls T} (hcap : ctx.maxDepth ≠ 0)
    (hf : ctx.maxDepth ≤ ctx.observerOpen) (hp : calls.Paired)
    (hfr : ∀ e ∈ ctx.seqToLocal, e.1 ∉ calls.seqs) : calls.events.foldl applyEvent ctx = ctx := by
  induction calls with
  | nil => rfl
  | call enter inner leave rest ihi ihr =>
    obtain ⟨hb, hend, hseq, -, hinn, hr⟩ := hp
    have hs : ctx.applyEvent enter = ctx := by
      simp [applyEvent, hb, hcap, hf]
    have hd : ctx.applyEvent leave = ctx := by
      have hn : takeSeq ctx.seqToLocal leave.seq = none :=
        takeSeq_eq_none fun e he h => hfr e he (by simp [Calls.seqs, h, hseq])
      have hkind : ¬ leave.kind = spanEventKindBegin := by rw [hend]; decide
      simp [applyEvent, hkind, hn]
    simp only [Calls.events, List.cons_append, List.foldl_cons, List.foldl_append, hs]
    rw [ihi hinn fun e he hin => hfr e he (by simp [Calls.seqs, hin]), hd]
    exact ihr hr fun e he hin => hfr e he (by simp [Calls.seqs, hin])

/-- The events of calls made inside `around` leave the context in step and add
the recorded calls to the finished spans. -/
theorem foldl_calls {calls : Calls T} (hpos : 0 < cap) (hcap : cap ≤ 32)
    (hs : InStep ids cap root around ctx) (hd : around.length ≤ cap) (hp : calls.Paired)
    (hf : (around.map (·.seq) ++ calls.seqs).Nodup) : ∃ ids', (∀ q ∉ calls.seqs, ids' q = ids q) ∧
      InStep ids' cap root around (calls.events.foldl applyEvent ctx) ∧
      (calls.events.foldl applyEvent ctx).finished =
        ctx.finished ++ (calls.recorded cap around).map (Nested.span ids' root) := by
  induction calls generalizing around ids ctx with
  | nil => exact ⟨ids, fun _ _ => rfl, hs, by simp [Calls.recorded, Calls.nested, Calls.events]⟩
  | call enter inner leave rest ihi ihr =>
    rcases Nat.lt_or_ge around.length cap with hr | hfu
    · obtain ⟨hbe, hend, hseq, hne, hinner, hre⟩ := hp
      have hpa : ((around.map (·.seq) ++ enter.seq :: inner.seqs) ++ rest.seqs).Nodup := by
        simpa [Calls.seqs] using hf
      have hown := hpa.of_append_left
      have hout := List.disjoint_of_nodup_append hpa
      obtain ⟨own, hs₁, hfin₁⟩ := applyEvent_begin hs hr hcap hbe fun b hb heq =>
        List.disjoint_of_nodup_append hown (List.mem_map_of_mem hb) (by simp [heq])
      obtain ⟨ids₂, hids₂, hs₂, hfin₂⟩ := ihi hs₁ hr hinner
        (List.perm_middle.nodup_iff.mp hown)
      obtain ⟨hs₃, hfin₃⟩ := applyEvent_end hs₂ hend hseq hne
      obtain ⟨ids₃, hids₃, hs₄, hfin₄⟩ := ihr hs₃ hd hre
        (hpa.sublist ((List.sublist_append_left ..).append (.refl _)))
      -- the calls that came before `rest` keep their identifiers
      have hk : ∀ c ∈ inner.recorded cap (enter :: around) ++ [⟨enter, leave, around⟩],
          c.span ids₂ root = c.span ids₃ root := by
        intro c hc
        have hmem : c ∈ (Calls.call enter inner leave .nil).nested around := by
          rcases List.mem_append.mp hc with hc | hc
          · simp [Calls.nested, List.mem_of_mem_filter hc]
          · simpa [Calls.nested] using .inr (List.mem_singleton.mp hc)
        obtain ⟨hseq', outer, henc, ho⟩ := Calls.mem_nested hmem
        have hlast : ∀ q, q ∈ (Calls.call enter inner leave .nil).seqs ∨ q ∈ around.map (·.seq) →
            ids₂ q = ids₃ q := fun q hq =>
          (hids₃ q (hout (by simpa [Calls.seqs, or_comm, or_assoc, or_left_comm] using hq))).symm
        refine Nested.span_congr (hlast _ (.inl hseq')) fun b hb => ?_
        rcases List.mem_append.mp (henc ▸ hb) with hb | hb
        · exact hlast _ (.inl (ho b hb))
        · exact hlast _ (.inr (List.mem_map_of_mem hb))
      refine ⟨ids₃, fun q hq => ?_, ?_⟩
      · simp only [Calls.seqs, List.cons_append, List.mem_cons, List.mem_append, not_or] at hq
        rw [hids₃ q hq.2.2, hids₂ q hq.2.1, Function.update_of_ne hq.1]
      · simp only [Calls.events, List.cons_append, List.foldl_cons, List.foldl_append]
        refine ⟨hs₄, ?_⟩
        rw [hfin₄, hfin₃, hfin₂, hfin₁, Calls.recorded_call hr]
        have hsp := List.map_congr_left hk
        simp only [List.map_append, List.map_cons, List.map_nil] at hsp
        rw [List.append_assoc ctx.finished, hsp]
        simp
    · refine ⟨ids, fun _ _ => rfl, ?_⟩
      have hsa : (Calls.call enter inner leave rest).events.foldl applyEvent ctx = ctx := by
        refine foldl_calls_capped (by rw [hs.maxDepth]; omega)
          (by rw [hs.maxDepth, hs.observerOpen]; omega) hp fun e he hin => ?_
        rw [hs.seqToLocal] at he
        obtain ⟨b, hb, rfl⟩ := List.mem_map.mp he
        exact List.disjoint_of_nodup_append hf
          (List.mem_map_of_mem (List.mem_reverse.mp hb)) hin
      rw [hsa, Calls.recorded_eq_nil hfu]
      exact ⟨hs, by simp⟩

end ProfilingContext

/-! ## Whole streams -/

theorem InStep.reset (ctx : ProfilingContext T) (ids : Ids) (cap : Nat) (root : SpanId) :
    InStep ids cap root [] (ctx.reset .profileAll root cap) :=
  ⟨rfl, rfl, rfl, rfl, rfl⟩

namespace ProfilingContext

/-- Batches record what the whole stream records. -/
theorem foldl_applyEvents {ctx : ProfilingContext T} (h : ctx.mode = .profileAll)
    (batches : List (List (OxSpanEvent T))) :
    batches.foldl applyEvents ctx = batches.flatten.foldl applyEvent ctx := by
  induction batches generalizing ctx with
  | nil => rfl
  | cons events batches ih =>
    have hmode : (events.foldl applyEvent ctx).mode = .profileAll := by
      refine events.foldlRecOn (motive := fun c => c.mode = .profileAll) applyEvent h ?_
      intro c hc ev _
      rw [applyEvent_mode, hc]
    rw [List.foldl_cons, List.flatten_cons, List.foldl_append, ← ih hmode, applyEvents,
      if_neg (by simp [h])]

end ProfilingContext

/-- The parent links of a recorded span name the calls around it. -/
theorem walkParentChain_span {tree : SpanTree T} {ids : Ids} {cap : Nat} {calls : Calls T}
    (ht : tree.finished = (calls.recorded cap []).map (Nested.span ids tree.rootSpanId))
    (hd : (tree.finished.map (·.spanId)).Nodup)
    (hr : ∀ s ∈ tree.finished, s.spanId ≠ tree.rootSpanId)
    {c : Nested T} (hc : c ∈ calls.recorded cap []) {fuel : Nat} (hfu : c.depth ≤ fuel) :
    walkParentChain tree fuel (c.span ids tree.rootSpanId) =
      some (readName c.enter :: c.enclosing.map readName) := by
  have hf {p : Nested T} (hp : p ∈ calls.recorded cap []) :
      indexBySpanId tree (ids p.enter.seq).2 = some (p.span ids tree.rootSpanId) := by
    have hmem : p.span ids tree.rootSpanId ∈ tree.finished := ht ▸ List.mem_map_of_mem hp
    cases hfi : indexBySpanId tree (ids p.enter.seq).2 with
    | none =>
      exact absurd (List.find?_eq_none.mp hfi _ (List.mem_reverse.mpr hmem)) (by simp [Nested.span])
    | some s =>
      have hs := List.mem_reverse.mp (List.mem_of_find?_eq_some hfi)
      have hid : s.spanId = (ids p.enter.seq).2 := by simpa using List.find?_some hfi
      rw [List.inj_on_of_nodup_map hd hs hmem hid]
  induction fuel generalizing c with
  | zero => simp [Nested.depth] at hfu
  | succ fuel ih =>
    obtain ⟨hin, hde⟩ := List.mem_filter.mp hc
    cases henc : c.enclosing with
    | nil => simp [walkParentChain, Nested.span, parentId, henc]
    | cons b outer =>
      obtain ⟨p, hp, rfl, hpe⟩ := Calls.enclosing_mem hin (by simpa using henc)
      have hl : c.depth = p.depth + 1 := by simp [Nested.depth, henc, hpe]
      have hpr : p ∈ calls.recorded cap [] :=
        List.mem_filter.mpr ⟨hp, decide_eq_true (by have := of_decide_eq_true hde; omega)⟩
      have hpa : (c.span ids tree.rootSpanId).parentSpanId = (ids p.enter.seq).2 := by
        simp [Nested.span, parentId, henc]
      have hne : (ids p.enter.seq).2 ≠ tree.rootSpanId :=
        hr (p.span ids tree.rootSpanId) (ht ▸ List.mem_map_of_mem hpr)
      rw [walkParentChain, hpa, if_neg hne, hf hpr]
      simp only [ih hpr (by omega), hpe, Option.map_some, List.map_cons, List.append_nil]
      rfl

/-- Cut into any batches, a well-nested stream with fresh sequence numbers
records its calls down to the cap, each with its own values below the call
around it; and the parent links of a span lead through the names of the spans
that were open when it was pushed. -/
theorem applyEvents_records_calls (ctx : ProfilingContext T) (cap : Nat) (hpos : 1 ≤ cap)
    (hcap : cap ≤ 32) (root : SpanId) (calls : Calls T) (hcalls : calls.WellNested)
    (batches : List (List (OxSpanEvent T))) (hbatches : batches.flatten = calls.events) (now : T) :
    let tree := (batches.foldl ProfilingContext.applyEvents
      (ctx.reset .profileAll root (setMaxSpanDepth cap))).finalize now
    ∃ ids, tree.finished = (calls.recorded cap []).map (Nested.span ids root) ∧
      ((tree.finished.map (·.spanId)).Nodup → (∀ s ∈ tree.finished, s.spanId ≠ root) →
        ∀ c ∈ calls.recorded cap [], ∀ fuel, cap ≤ fuel →
          walkParentChain tree fuel (c.span ids root) =
            some (readName c.enter :: c.enclosing.map readName)) := by
  intro tree
  have hmin : setMaxSpanDepth cap = cap := Nat.min_eq_left hcap
  have hst : InStep (fun _ => (0, [])) cap root []
      (ctx.reset .profileAll root (setMaxSpanDepth cap)) := by
    rw [hmin]
    exact .reset ..
  obtain ⟨ids, -, hs, hfin⟩ := ProfilingContext.foldl_calls hpos hcap hst (Nat.zero_le _)
    hcalls.paired hcalls.fresh
  rw [← hbatches, ← ProfilingContext.foldl_applyEvents rfl] at hs hfin
  have ht : tree.finished = (calls.recorded cap []).map (Nested.span ids root) := by
    have hcl : tree.finished = _ ++ List.map _ _ := rfl
    rw [hcl, hs.spans, hfin]
    simp [openSpans, ProfilingContext.reset]
  have hr : tree.rootSpanId = root := hs.rootSpanId
  refine ⟨ids, ht, fun hd hne c hc fuel hf => ?_⟩
  clear_value tree
  subst hr
  have hde : c.depth ≤ cap := of_decide_eq_true (List.mem_filter.mp hc).2
  exact walkParentChain_span ht hd hne hc (Nat.le_trans hde hf)

/-- A call of `f` at 10 that calls `g` from 20 to 30 and returns at 40. -/
def callWithin : Calls Nat :=
  .call ⟨⟨10, 0, 0, 0⟩, 1, 1, str "f"⟩ (.call ⟨⟨20, 0, 0, 0⟩, 1, 2, str "g"⟩ .nil
    ⟨⟨30, 0, 0, 0⟩, 2, 2, []⟩ .nil) ⟨⟨40, 0, 0, 0⟩, 2, 1, []⟩ .nil

theorem applyEvents_records_calls_within :
    ∃ ids, (([callWithin.events.take 3, callWithin.events.drop 3].foldl
        ProfilingContext.applyEvents ((ProfilingContext.new fun n => [UInt8.ofNat n]).reset
          .profileAll (str "root") 1)).finalize 50).finished =
      (callWithin.recorded 1 []).map (Nested.span ids (str "root")) :=
  have ⟨ids, h, _⟩ := applyEvents_records_calls (.new fun n => [UInt8.ofNat n]) 1 (by decide)
    (by decide) (str "root") callWithin ⟨⟨rfl, rfl, rfl, by decide, ⟨rfl, rfl, rfl, by decide,
      trivial, trivial⟩, trivial⟩, by decide⟩
    [callWithin.events.take 3, callWithin.events.drop 3] rfl 50
  ⟨ids, h⟩

end OxPhp.Profiling
