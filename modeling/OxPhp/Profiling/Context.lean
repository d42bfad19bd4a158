import OxPhp.Lib.Percent

/-!
# The profiling context of a request

`profiling/mod.rs`: the stack of open spans, the finished ones and the observer's
bookkeeping.  Nothing here compares two timestamps, so their type is a
parameter.  Attributes, events and status travel with a span unread and are
left out.
-/

namespace OxPhp.Profiling

open ByteStr

/-- What is recorded of a request. -/
inductive ProfilingMode
  | off
  | apmOnly
  | profileAll
  deriving DecidableEq

abbrev SpanLocalId := UInt32

abbrev SpanId := Bytes

/-- What is measured at an event. -/
structure Sample (T : Type) where
  tsNs : T
  cpuNs : Nat
  mem : Int
  memPeak : Int

/-- An event of the C observer. -/
structure OxSpanEvent (T : Type) extends Sample T where
  kind : UInt8
  seq : Nat
  name : Bytes

/-- An open span. -/
structure PendingSpan (T : Type) where
  localId : SpanLocalId
  spanId : SpanId
  parentSpanId : SpanId
  name : Bytes
  startNs : T
  cpuStartNs : Nat
  memEnter : Int
  memPeakEnter : Int

/-- A span that has ended, `leaked` if only the request ended it. -/
structure FinishedSpan (T : Type) where
  localId : SpanLocalId
  spanId : SpanId
  parentSpanId : SpanId
  name : Bytes
  startNs : T
  endNs : T
  leaked : Bool
  cpuNs : Nat
  memEnter : Int
  memExit : Int
  memPeak : Int

/-- The spans of a request. -/
structure SpanTree (T : Type) where
  finished : List (FinishedSpan T)
  rootSpanId : SpanId

/-- The last of `spans` is the current one.  `spanIds` are the draws of the
thread's generator, `drawn` of them taken. -/
structure ProfilingContext (T : Type) where
  mode : ProfilingMode
  spans : List (PendingSpan T)
  finished : List (FinishedSpan T)
  nextId : SpanLocalId
  rootSpanId : SpanId
  seqToLocal : List (Nat × SpanLocalId)
  maxDepth : Nat
  observerOpen : Nat
  spanIds : Nat → SpanId
  drawn : Nat

def spanEventKindBegin : UInt8 := 1
def spanEventKindEnd : UInt8 := 2
def observerOpenFramesMax : Nat := 32

/-- The process-wide cap that `cap` installs. -/
def setMaxSpanDepth (cap : Nat) : Nat := min cap observerOpenFramesMax

/-- The name of an event's function, as a text. -/
def readName {T : Type} (ev : OxSpanEvent T) : Bytes :=
  if ev.name.isEmpty then str "<unnamed>" else utf8Lossy ev.name

/-- The index of the last element with the property. -/
def rposition {α : Type} (p : α → Bool) (l : List α) : Option Nat :=
  (l.reverse.findIdx? p).map (l.length - 1 - ·)

/-- Remove an element; the last one takes its place. -/
def swapRemove {α : Type} (l : List α) (pos : Nat) : List α :=
  (l.getLast?.elim l (l.set pos ·)).dropLast

/-- The span recorded last for a sequence number, and the map without it. -/
def takeSeq (seqToLocal : List (Nat × SpanLocalId)) (seq : Nat) :
    Option (SpanLocalId × List (Nat × SpanLocalId)) := do
  let pos ← rposition (·.1 = seq) seqToLocal
  let entry ← seqToLocal[pos]?
  return (entry.2, swapRemove seqToLocal pos)

namespace ProfilingContext

variable {T : Type}

def new (spanIds : Nat → SpanId) : ProfilingContext T :=
  ⟨.off, [], [], 1, [], [], 0, 0, spanIds, 0⟩

/-- An empty context for the next request. -/
def reset (ctx : ProfilingContext T) (mode : ProfilingMode) (rootSpanId : SpanId)
    (maxSpanDepth : Nat) : ProfilingContext T :=
  { ctx with
    mode := mode, spans := [], finished := [], seqToLocal := [], nextId := 1
    rootSpanId := rootSpanId, maxDepth := maxSpanDepth, observerOpen := 0 }

/-- Open a span below the current one. -/
def pushWithMetrics (ctx : ProfilingContext T) (name : Bytes) (sample : Sample T) :
    ProfilingContext T :=
  { ctx with
    nextId := if ctx.nextId + 1 = 0 then 1 else ctx.nextId + 1
    drawn := ctx.drawn + 1
    spans := ctx.spans ++ [{
      localId := ctx.nextId
      spanId := ctx.spanIds ctx.drawn
      parentSpanId := (ctx.spans.getLast?.map (·.spanId)).getD ctx.rootSpanId
      name := name
      startNs := sample.tsNs
      cpuStartNs := sample.cpuNs
      memEnter := sample.mem
      memPeakEnter := sample.memPeak }] }

end ProfilingContext

def PendingSpan.finish {T : Type} (pending : PendingSpan T) (endNs : T) (leaked : Bool)
    (cpuNs : Nat) (memExit memPeak : Int) : FinishedSpan T where
  localId := pending.localId
  spanId := pending.spanId
  parentSpanId := pending.parentSpanId
  name := pending.name
  startNs := pending.startNs
  endNs := endNs
  leaked := leaked
  cpuNs := cpuNs
  memEnter := pending.memEnter
  memExit := memExit
  memPeak := memPeak

namespace ProfilingContext

variable {T : Type}

/-- The open span a pop takes and the ones it leaves: the current span when it
has the identifier, the lowest that has it otherwise. -/
def takeSpan (spans : List (PendingSpan T)) (localId : SpanLocalId) :
    Option (PendingSpan T × List (PendingSpan T)) :=
  match spans.getLast? with
  | none => none
  | some top =>
    if top.localId = localId then some (top, spans.dropLast)
    else
      match spans.findIdx? (·.localId = localId) with
      | none => none
      | some idx => spans[idx]?.map (·, spans.eraseIdx idx)

/-- Finish the span with the identifier, if it is open. -/
def popWithMetrics (ctx : ProfilingContext T) (localId : SpanLocalId) (sample : Sample T) :
    Option (ProfilingContext T) :=
  (takeSpan ctx.spans localId).map fun (pending, spans) =>
    { ctx with
      spans := spans
      finished := ctx.finished ++ [pending.finish sample.tsNs false
        (sample.cpuNs - pending.cpuStartNs) sample.mem (max pending.memPeakEnter sample.memPeak)] }

/-- A decorator samples the time and nothing else. -/
def decoratorSample (now : T) : Sample T := ⟨now, 0, 0, 0⟩

def push (ctx : ProfilingContext T) (name : Bytes) (now : T) : ProfilingContext T :=
  ctx.pushWithMetrics name (decoratorSample now)

def pop (ctx : ProfilingContext T) (localId : SpanLocalId) (now : T) :
    Option (ProfilingContext T) :=
  ctx.popWithMetrics localId (decoratorSample now)

/-- Finish what is still open, as leaked. -/
def forceCloseAll (ctx : ProfilingContext T) (now : T) : ProfilingContext T :=
  { ctx with
    observerOpen := 0, seqToLocal := [], spans := []
    finished := ctx.finished ++ ctx.spans.map fun pending =>
      pending.finish now true 0 0 pending.memPeakEnter }

def track (ctx : ProfilingContext T) (seqToLocal : List (Nat × SpanLocalId))
    (observerOpen : Nat) : ProfilingContext T :=
  { ctx with seqToLocal := seqToLocal, observerOpen := observerOpen }

/-- One observer event, under `ProfileAll`. -/
def applyEvent (ctx : ProfilingContext T) (ev : OxSpanEvent T) : ProfilingContext T :=
  if ev.kind = spanEventKindBegin then
    if ctx.maxDepth ≠ 0 ∧ ctx.maxDepth ≤ ctx.observerOpen then ctx
    else
      let seqToLocal := ctx.seqToLocal ++ [(ev.seq, ctx.nextId)]
      (ctx.pushWithMetrics (readName ev) ev.toSample).track
        (if seqToLocal.length > 4096 then seqToLocal.drop 2048 else seqToLocal)
        (min (ctx.observerOpen + 1) 65535)
  else if ev.kind = spanEventKindEnd then
    if ev.seq = 0 then ctx
    else
      match takeSeq ctx.seqToLocal ev.seq with
      | none => ctx
      | some (localId, seqToLocal) =>
        let ctx := ctx.track seqToLocal (ctx.observerOpen - 1)
        (ctx.popWithMetrics localId ev.toSample).getD ctx
  else ctx

/-- A batch of observer events; only `ProfileAll` records them. -/
def applyEvents (ctx : ProfilingContext T) (events : List (OxSpanEvent T)) :
    ProfilingContext T :=
  if ctx.mode ≠ .profileAll then ctx else events.foldl applyEvent ctx

theorem applyEvent_mode (ctx : ProfilingContext T) (ev : OxSpanEvent T) :
    (ctx.applyEvent ev).mode = ctx.mode := by
  unfold applyEvent
  split
  · split <;> rfl
  · split
    · split
      · rfl
      · split
        · rfl
        · simp only [track, popWithMetrics]
          cases takeSpan ctx.spans _ <;> rfl
    · rfl

/-- The spans of the request at its end. -/
def finalize (ctx : ProfilingContext T) (now : T) : SpanTree T where
  finished := (ctx.forceCloseAll now).finished
  rootSpanId := ctx.rootSpanId

end ProfilingContext

/-! ## Parent links -/

/-- The span with an identifier; a later span replaces an earlier one. -/
def indexBySpanId {T : Type} (tree : SpanTree T) (id : SpanId) : Option (FinishedSpan T) :=
  tree.finished.reverse.find? (·.spanId = id)

/-- The names from a span up its parent links, leaf first: `none` when `fuel`
links do not reach the end of them. -/
def walkParentChain {T : Type} (tree : SpanTree T) : Nat → FinishedSpan T → Option (List Bytes)
  | 0, _ => none
  | fuel + 1, cur =>
    if cur.parentSpanId = tree.rootSpanId then some [cur.name]
    else
      match indexBySpanId tree cur.parentSpanId with
      | some parent => (walkParentChain tree fuel parent).map (cur.name :: ·)
      | none => some [cur.name]

end OxPhp.Profiling
