import OxPhp.Lib.Ledger
import OxPhp.Shared.Mutex.WithLock

/-!
# Break signals

`plugins/ox_shared/deadlock.rs` and the waits of `plugins/ox_shared/types/mutex.rs`
under contention.  A scan copies the wait-for graph entry by entry, looks for
cycles in the copy and leaves a signal for the thread it started from; nothing in
the signal says which wait it is for.  Waits are numbered here and signals keep the
copy they come from, which the code does not do.
-/

namespace OxPhp.Shared.Deadlock

open Interleave ByteStr MutexLock Relation

abbrev ThreadId := Nat

inductive LockDiagnosticsLevel where
  | off
  | warn
  | strict
  deriving DecidableEq

/-- `swap_remove` at the last position that passes the test. -/
def removeLast {α : Type} (test : α → Bool) (l : List α) : List α :=
  match l.reverse.findIdx? test, l.getLast? with
  | some back, some last => (l.set (l.length - 1 - back) last).dropLast
  | _, _ => l

/-! ## The wait-for graph -/

structure Waiter where
  tid : ThreadId
  number : Nat
  deriving DecidableEq

structure WaitState where
  holder : Option ThreadId
  waiters : List Waiter

namespace WaitState

def removeWaiter (w : WaitState) (tid : ThreadId) : WaitState :=
  { w with waiters := removeLast (fun x => x.tid == tid) w.waiters }

def promoteToHolder (w : WaitState) (tid : ThreadId) : WaitState :=
  { w.removeWaiter tid with holder := some tid }

def clearHolder (w : WaitState) (tid : ThreadId) : WaitState :=
  if w.holder = some tid then { w with holder := none } else w

end WaitState

structure Wait where
  tid : ThreadId
  mutex : SharedId
  number : Nat
  deriving DecidableEq

/-- The copy of the graph a scan works on: `waits_on` and `held_by`. -/
structure Snapshot where
  waits : List Wait
  heldBy : List (SharedId × ThreadId)
  deriving DecidableEq

namespace Snapshot

variable (snap : Snapshot)

def add (id : SharedId) (state : WaitState) : Snapshot where
  waits := snap.waits ++ state.waiters.map fun w => ⟨w.tid, id, w.number⟩
  heldBy := (state.holder.toList.map fun holder => (id, holder)) ++ snap.heldBy

def waitsOn (t : ThreadId) : List SharedId :=
  (snap.waits.filter fun w => w.tid == t).map Wait.mutex

def holderOf (m : SharedId) : Option ThreadId := snap.heldBy.lookup m

def waiterThreads : List ThreadId := (snap.waits.map Wait.tid).eraseDups

/-- The thread waits for a Mutex the other one holds. -/
def Edge (t holder : ThreadId) : Prop :=
  ∃ w ∈ snap.waits, w.tid = t ∧ snap.holderOf w.mutex = some holder

/-- The wait with this number, of this thread, is on a cycle of waits. -/
def CycleThrough (t : ThreadId) (number : Nat) : Prop :=
  ∃ w ∈ snap.waits, w.tid = t ∧ w.number = number ∧
    ∃ holder, snap.holderOf w.mutex = some holder ∧ ReflTransGen snap.Edge holder t

/-- The loop over the Mutexes `t` waits for: whether it was left at a cycle, and
the stack. -/
def explore (start t : ThreadId) : List SharedId → List ThreadId → Bool × List ThreadId
  | [], stack => (false, stack)
  | m :: mutexes, stack =>
    match snap.holderOf m with
    | none => explore start t mutexes stack
    | some holder =>
      if holder = start ∧ t ≠ start then (true, stack)
      else explore start t mutexes (holder :: stack)

end Snapshot

structure BreakSignal where
  cycleId : UInt64
  snapshot : Snapshot
  deriving DecidableEq

/-- What a scan has found: a cycle through a wait of `start`. -/
structure Detection where
  snapshot : Snapshot
  start : ThreadId
  deriving DecidableEq

structure Locks where
  inner : SharedId → MutexInner
  locked : SharedId → Bool
  held : ThreadId → List SharedId
  graph : SharedId → WaitState
  entries : List SharedId
  breakRequests : ThreadId → Option BreakSignal
  cyclesDetected : UInt64
  waits : Nat
  /-- The wait of a `withLock` a thread is in. -/
  waiting : ThreadId → Option Nat
  detected : List Detection

namespace Locks

variable (s : Locks)

def registerWaiter (me : ThreadId) (id : SharedId) : Locks :=
  { s with
    graph := Function.update s.graph id
      { s.graph id with waiters := (s.graph id).waiters ++ [⟨me, s.waits⟩] }
    entries := if id ∈ s.entries then s.entries else s.entries ++ [id]
    waits := s.waits + 1 }

def updateGraph (id : SharedId) (f : WaitState → WaitState) : Locks :=
  { s with graph := Function.update s.graph id (f (s.graph id)) }

def lock (id : SharedId) : Locks := { s with locked := Function.update s.locked id true }

def unlock (id : SharedId) : Locks := { s with locked := Function.update s.locked id false }

def beginWait (me : ThreadId) (number : Nat) : Locks :=
  { s with waiting := Function.update s.waiting me (some number) }

def endWait (me : ThreadId) : Locks :=
  { s with waiting := Function.update s.waiting me none }

def consume (me : ThreadId) : Locks :=
  { s with breakRequests := Function.update s.breakRequests me none }

end Locks

/-! ## Operations -/

inductive EntryPoint where
  | withLock (timeoutMs : Int64)
  | tryWithLock

/-- A call, with how its closure is going to end. -/
structure Request where
  me : ThreadId
  id : SharedId
  entry : EntryPoint
  reg : Registry
  invoke : Option Invoked

inductive Call where
  | lock (req : Request)
  | scan (level : LockDiagnosticsLevel)

/-- How a call ends, with the number of its wait and the signal it took. -/
structure Outcome where
  answer : Except Failure Bytes
  number : Option Nat
  consumed : Option BreakSignal

inductive Answer where
  | locked (req : Request) (out : Outcome)
  | scanned

inductive Stage where
  | consumeFirst
  | lockForever
  | pollCorrupted
  | pollSignal
  | pollRequestEnd
  | tryLock
  | tryLockFor
  | timedOut
  | consumeLate
  | promote

/-- Where the search for a cycle through a wait of `start` is. -/
structure Search where
  level : LockDiagnosticsLevel
  snapshot : Snapshot
  todo : List ThreadId
  start : ThreadId
  stack : List ThreadId
  visited : List ThreadId

inductive Pc where
  | checkCorrupted (req : Request)
  | pushHeld (req : Request)
  | registerWaiter (req : Request)
  | wait (req : Request) (number : Nat) (stage : Stage)
  | tryOnce (req : Request) (number : Nat)
  | promoteOnce (req : Request) (number : Nat)
  | dropWaiter (req : Request) (out : Outcome)
  | underLock (req : Request) (number : Nat)
  | invoke (req : Request) (number : Nat)
  | dropHolder (req : Request) (out : Outcome)
  | unlock (req : Request) (out : Outcome)
  | popHeld (req : Request) (out : Outcome)
  | scanStart (level : LockDiagnosticsLevel)
  | copy (level : LockDiagnosticsLevel) (first seen : List SharedId) (snap : Snapshot)
  | nextStart (level : LockDiagnosticsLevel) (snap : Snapshot) (todo : List ThreadId)
  | search (w : Search)
  | count (w : Search)
  | loadId (w : Search)
  | signal (w : Search) (cycleId : UInt64)

def Call.start : Call → Pc
  | lock req => .checkCorrupted req
  | scan level => .scanStart level

/-- `parse_timeout`: the first attempt at the lock. -/
def firstAttempt (timeoutMs : Int64) : Stage :=
  if timeoutMs < 0 then .lockForever else if timeoutMs = 0 then .tryLock else .tryLockFor

def failed (number : Nat) (e : SharedError) (message : Bytes) : Outcome :=
  ⟨.error ⟨e, message⟩, some number, none⟩

def broken (number : Nat) (signal : BreakSignal) (message : Bytes) : Outcome :=
  ⟨.error ⟨.deadlock, message⟩, some number, some signal⟩

section Act

variable (s : Locks)

/-- Take a signal, if there is one, and give up. -/
def consumeOr (req : Request) (number : Nat) (message : Bytes) (leave : Outcome → Pc)
    (otherwise : Pc × Locks) : Next Pc Answer × Locks :=
  match s.breakRequests req.me with
  | some signal => (.go (leave (broken number signal message)), (s.consume req.me).endWait req.me)
  | none => (.go otherwise.1, otherwise.2)

/-- The timed attempts may run out, whoever has the lock by then. -/
def attempt (req : Request) (number : Nat) : List (Next Pc Answer × Locks) :=
  if s.locked req.id then [] else [(.go (.wait req number .promote), s.lock req.id)]

def actWait (req : Request) (number : Nat) (timeoutMs : Int64) :
    Stage → List (Next Pc Answer × Locks)
  | .consumeFirst =>
    [consumeOr s req number (str "Mutex::with: detected wait-for cycle; breaking")
      (.dropWaiter req) (.wait req number (firstAttempt timeoutMs), s)]
  | .lockForever => attempt s req number ++ [(.go (.wait req number .pollCorrupted), s)]
  | .pollCorrupted =>
    if (s.inner req.id).corrupted then
      [(.go (.dropWaiter req (failed number .panicked (str "Mutex::with: corrupted during wait"))),
        s.endWait req.me)]
    else [(.go (.wait req number .pollSignal), s)]
  | .pollSignal =>
    [consumeOr s req number (str "Mutex::with: wait-for cycle detected during forever wait")
      (.dropWaiter req) (.wait req number .pollRequestEnd, s)]
  | .pollRequestEnd =>
    [(.go (.dropWaiter req (failed number .cancelled
        (str "Mutex::withLock: wait abandoned, the request is being ended"))), s.endWait req.me),
      (.go (.wait req number .lockForever), s)]
  | .tryLock =>
    if s.locked req.id then [(.go (.wait req number .timedOut), s)]
    else [(.go (.wait req number .promote), s.lock req.id)]
  | .tryLockFor => attempt s req number ++ [(.go (.wait req number .timedOut), s)]
  | .timedOut =>
    [(.go (.wait req number .consumeLate), s.updateGraph req.id fun w => w.removeWaiter req.me)]
  | .consumeLate =>
    [consumeOr s req number (str "Mutex::with: wait-for cycle detected during timeout")
      (.popHeld req)
      (.popHeld req (failed number .timeout
        (str "mutex acquire timed out (timeout_ms=" ++ str (toString timeoutMs) ++ str ")")),
        s.endWait req.me)]
  | .promote =>
    [(.go (.underLock req number),
      (s.updateGraph req.id fun w => w.promoteToHolder req.me).endWait req.me)]

def runClosure (req : Request) : Locked :=
  match req.entry with
  | .withLock _ => mutexWithClosure req.reg (s.inner req.id) req.invoke
  | .tryWithLock => mutexTryWithClosure req.reg (s.inner req.id) req.invoke

def actSearch (w : Search) : Next Pc Answer :=
  match w.stack with
  | [] => .go (.nextStart w.level w.snapshot w.todo)
  | t :: stack =>
    if t ∈ w.visited then .go (.search { w with stack })
    else
      let (found, stack) := w.snapshot.explore w.start t (w.snapshot.waitsOn t) stack
      let w := { w with stack, visited := t :: w.visited }
      if found then .go (.count w) else .go (.search w)

def act : Pc → Locks → List (Next Pc Answer × Locks)
  | .checkCorrupted req, s =>
    if (s.inner req.id).corrupted then
      [(.ret (.locked req ⟨.error ⟨.panicked, corruptedMessage⟩, none, none⟩), s)]
    else [(.go (.pushHeld req), s)]
  | .pushHeld req, s =>
    if req.id ∈ s.held req.me then
      [(.ret (.locked req ⟨.error ⟨.deadlock, recursiveAcquire req.id⟩, none, none⟩), s)]
    else
      [(.go (.registerWaiter req),
        { s with held := Function.update s.held req.me (s.held req.me ++ [req.id]) })]
  | .registerWaiter req, s =>
    match req.entry with
    | .withLock _ =>
      -- a thread is in one wait at a time
      if (s.waiting req.me).isSome then []
      else
        [(.go (.wait req s.waits .consumeFirst),
          (s.registerWaiter req.me req.id).beginWait req.me s.waits)]
    | .tryWithLock => [(.go (.tryOnce req s.waits), s.registerWaiter req.me req.id)]
  | .wait req number stage, s =>
    match req.entry with
    | .withLock timeoutMs => actWait s req number timeoutMs stage
    | .tryWithLock => []
  | .tryOnce req number, s =>
    if s.locked req.id then
      [(.go (.dropWaiter req (failed number .timeout
        (str "mutex contended; tryWithLock returning ContentionException"))), s)]
    else [(.go (.promoteOnce req number), s.lock req.id)]
  | .promoteOnce req number, s =>
    [(.go (.underLock req number), s.updateGraph req.id fun w => w.promoteToHolder req.me)]
  | .dropWaiter req out, s =>
    [(.go (.popHeld req out), s.updateGraph req.id fun w => w.removeWaiter req.me)]
  | .underLock req number, s =>
    if (s.inner req.id).corrupted then
      let message := match req.entry with
        | .withLock _ => []
        | .tryWithLock => corruptedMessage
      [(.go (.dropHolder req (failed number .panicked message)), s)]
    else [(.go (.invoke req number), s)]
  | .invoke req number, s =>
    let done := runClosure s req
    [(.go (.dropHolder req ⟨done.answer, some number, none⟩),
      { s with inner := Function.update s.inner req.id done.inner })]
  | .dropHolder req out, s =>
    [(.go (.unlock req out), s.updateGraph req.id fun w => w.clearHolder req.me)]
  | .unlock req out, s => [(.go (.popHeld req out), s.unlock req.id)]
  | .popHeld req out, s =>
    [(.ret (.locked req out),
      { s with
        held := Function.update s.held req.me
          (removeLast (fun id => id == req.id) (s.held req.me)) })]
  | .scanStart level, s =>
    if s.entries = [] then [(.ret .scanned, s)] else [(.go (.copy level s.entries [] ⟨[], []⟩), s)]
  | .copy level first seen snap, s =>
    -- one more entry, in any order; an entry made since the scan began may be missed
    ((s.entries.filter fun id => id ∉ seen).map fun id =>
      (.go (.copy level first (id :: seen) (snap.add id (s.graph id))), s)) ++
      if first.all fun id => id ∈ seen then
        [(.go (.nextStart level snap snap.waiterThreads), s)]
      else []
  | .nextStart level snap todo, s =>
    match todo with
    | [] => [(.ret .scanned, s)]
    | _ =>
      todo.map fun start => (.go (.search ⟨level, snap, todo.erase start, start, [start], []⟩), s)
  | .search w, s => [(actSearch w, s)]
  | .count w, s =>
    [(if w.level = .strict then .go (.loadId w) else .go (.search w),
      { s with
        cyclesDetected := s.cyclesDetected + 1
        detected := s.detected ++ [⟨w.snapshot, w.start⟩] })]
  | .loadId w, s => [(.go (.signal w s.cyclesDetected), s)]
  | .signal w cycleId, s =>
    [(.go (.search w),
      { s with
        breakRequests := Function.update s.breakRequests w.start (some ⟨cycleId, w.snapshot⟩) })]

end Act

def machine : Machine Locks Pc Call Answer Empty where
  entry := Call.start
  act := act
  env := nofun

def idle (inner : SharedId → MutexInner) : Locks where
  inner := inner
  locked := fun _ => false
  held := fun _ => []
  graph := fun _ => ⟨none, []⟩
  entries := []
  breakRequests := fun _ => none
  cyclesDetected := 0
  waits := 0
  waiting := fun _ => none
  detected := []

def start (inner : SharedId → MutexInner) : Config Locks Pc Answer := ⟨idle inner, [], []⟩

/-! ## What a search finds -/

section Search

variable {snap : Snapshot} {start t : ThreadId}

theorem Snapshot.edge_of_waitsOn {m : SharedId} {holder : ThreadId} (hm : m ∈ snap.waitsOn t)
    (hh : snap.holderOf m = some holder) : snap.Edge t holder := by
  obtain ⟨w, hw, rfl⟩ := List.mem_map.mp hm
  obtain ⟨hw, htid⟩ := List.mem_filter.mp hw
  exact ⟨w, hw, beq_iff_eq.mp htid, hh⟩

theorem Snapshot.explore_spec (start : ThreadId) (mutexes : List SharedId) (stack : List ThreadId)
    (hmu : ∀ m ∈ mutexes, m ∈ snap.waitsOn t) :
    (∀ x ∈ (snap.explore start t mutexes stack).2, x ∈ stack ∨ snap.Edge t x) ∧
      ((snap.explore start t mutexes stack).1 = true → snap.Edge t start) := by
  induction mutexes generalizing stack with
  | nil => exact ⟨fun x hx => .inl hx, fun hf => absurd hf Bool.false_ne_true⟩
  | cons m mutexes ih =>
    have hm := hmu m List.mem_cons_self
    have hr : ∀ m ∈ mutexes, m ∈ snap.waitsOn t :=
      fun m hm => hmu m (List.mem_cons_of_mem _ hm)
    unfold Snapshot.explore
    split
    · exact ih stack hr
    · next holder hh =>
      have he := edge_of_waitsOn hm hh
      split
      · next hs => exact ⟨fun x hx => .inl hx, fun _ => hs.1 ▸ he⟩
      · obtain ⟨hp, hf⟩ := ih (holder :: stack) hr
        refine ⟨fun x hx => ?_, hf⟩
        rcases hp x hx with hx | hx
        · rcases List.mem_cons.mp hx with rfl | hx
          · exact .inr he
          · exact .inl hx
        · exact .inr hx

theorem Snapshot.exists_cycleThrough (h : TransGen snap.Edge start start) :
    ∃ w ∈ snap.waits, w.tid = start ∧ snap.CycleThrough start w.number := by
  obtain ⟨holder, ⟨w, hw, htid, hh⟩, hb⟩ := TransGen.head'_iff.mp h
  exact ⟨w, hw, htid, w, hw, htid, rfl, holder, hh, hb⟩

/-- The stack holds threads the start waits for, over any number of others. -/
def Search.Walked (w : Search) : Prop :=
  ∀ t ∈ w.stack, ReflTransGen w.snapshot.Edge w.start t

/-- **The search is sound**: it keeps to what the start waits for, and what it
counts is a cycle. -/
theorem actSearch_spec {w : Search} (h : w.Walked) :
    (∃ level snap todo, actSearch w = .go (.nextStart level snap todo)) ∨
    (∃ w', actSearch w = .go (.search w') ∧ w'.Walked) ∨
    ∃ w', actSearch w = .go (.count w') ∧ w'.Walked ∧
      TransGen w'.snapshot.Edge w'.start w'.start := by
  unfold actSearch
  split
  · exact .inl ⟨_, _, _, rfl⟩
  · next t stack hs =>
    have ht : ReflTransGen w.snapshot.Edge w.start t := h t (hs ▸ List.mem_cons_self)
    have hr : ∀ x ∈ stack, ReflTransGen w.snapshot.Edge w.start x :=
      fun x hx => h x (hs ▸ List.mem_cons_of_mem _ hx)
    split
    · exact .inr (.inl ⟨_, rfl, hr⟩)
    · obtain ⟨hp, hf⟩ :=
        w.snapshot.explore_spec w.start (w.snapshot.waitsOn t) stack fun m hm => hm
      have hw : ∀ x ∈ (w.snapshot.explore w.start t (w.snapshot.waitsOn t) stack).2,
          ReflTransGen w.snapshot.Edge w.start x := by
        intro x hx
        rcases hp x hx with hx | hx
        · exact hr x hx
        · exact ht.tail hx
      dsimp only
      split
      · next hhit => exact .inr (.inr ⟨_, rfl, hw, .tail' ht (hf hhit)⟩)
      · exact .inr (.inl ⟨_, rfl, hw⟩)

end Search

/-! ## Deadlocks and their causes -/

/-- A deadlock a `withLock` reports is the one of its own wait: it took a signal,
and the scan that left it had found a cycle with this wait on it. -/
structure OwnCycle (detected : List Detection) (req : Request) (out : Outcome) : Prop where
  own : ∃ number signal, out.number = some number ∧ out.consumed = some signal ∧
    ⟨signal.snapshot, req.me⟩ ∈ detected ∧ signal.snapshot.CycleThrough req.me number

/-- A deadlock is reported for no other reason. -/
def Explained (detected : List Detection) (req : Request) (out : Outcome) : Prop :=
  ∀ timeoutMs f, req.entry = .withLock timeoutMs → out.answer = .error f → f.error = .deadlock →
    OwnCycle detected req out

variable {detected detected' : List Detection} {req : Request} {out : Outcome}

theorem Explained.mono (h : Explained detected req out) (hsub : detected ⊆ detected') :
    Explained detected' req out := by
  intro timeoutMs f he ha hd
  obtain ⟨number, signal, hn, hc, hmem, hcy⟩ := (h timeoutMs f he ha hd).own
  exact ⟨number, signal, hn, hc, hsub hmem, hcy⟩

theorem explained_of_ne
    (h : ∀ timeoutMs f, req.entry = .withLock timeoutMs → out.answer = .error f →
      f.error ≠ .deadlock) : Explained detected req out :=
  fun timeoutMs f he ha hd => absurd hd (h timeoutMs f he ha)

theorem explained_failed {number : Nat} {e : SharedError} {message : Bytes} (he : e ≠ .deadlock) :
    Explained detected req (failed number e message) := by
  refine explained_of_ne fun _ f _ ha => ?_
  cases ha
  exact he

def Valid (detected : List Detection) : Pc → Prop
  | .dropWaiter req out => Explained detected req out
  | .dropHolder req out => Explained detected req out
  | .unlock req out => Explained detected req out
  | .popHeld req out => Explained detected req out
  | .search w => w.Walked
  | .count w => w.Walked ∧ TransGen w.snapshot.Edge w.start w.start
  | .loadId w => w.Walked ∧ TransGen w.snapshot.Edge w.start w.start ∧
    ⟨w.snapshot, w.start⟩ ∈ detected
  | .signal w _ => w.Walked ∧ TransGen w.snapshot.Edge w.start w.start ∧
    ⟨w.snapshot, w.start⟩ ∈ detected
  | _ => True

theorem Valid.mono {pc : Pc} (h : Valid detected pc)
    (hsub : detected ⊆ detected') : Valid detected' pc := by
  cases pc with
  | dropWaiter req out | dropHolder req out | unlock req out | popHeld req out =>
    exact Explained.mono h hsub
  | search w => exact h
  | count w => exact h
  | loadId w | signal w cycleId => exact ⟨h.1, h.2.1, hsub h.2.2⟩
  | _ => trivial

def Lands (detected : List Detection) : Next Pc Answer → Prop
  | .go pc => Valid detected pc
  | .ret (.locked req out) => Explained detected req out
  | .ret .scanned => True

/-- The wait an operation of the thread is in. -/
def waitHand (t : ThreadId) : Pc → Multiset Nat
  | .wait req number _ => if req.me = t then {number} else 0
  | _ => 0

/-- Every signal comes from a scan, and is for the wait its thread is in, if any. -/
def Current (s : Locks) : Prop :=
  ∀ t signal, s.breakRequests t = some signal →
    ⟨signal.snapshot, t⟩ ∈ s.detected ∧
      ∀ number, s.waiting t = some number → signal.snapshot.CycleThrough t number

/-- The condition on a schedule: no wait begins while there is a signal for its
thread; where a scan leaves a signal for a thread in a wait, the scan has seen no
other wait of this thread; and no `withLock` is called on a Mutex its thread
holds. -/
def Prompt (c : Config Locks Pc Answer) : Pc → Prop
  | .registerWaiter req => ∀ timeoutMs, req.entry = .withLock timeoutMs →
    c.shared.breakRequests req.me = none
  | .signal w _ => ∀ number, c.shared.waiting w.start = some number →
    ∀ seen ∈ w.snapshot.waits, seen.tid = w.start → seen.number = number
  | .pushHeld req => ∀ timeoutMs, req.entry = .withLock timeoutMs →
    req.id ∉ c.shared.held req.me
  | _ => True

/-! ## One step -/

inductive Effect (s : Locks) : Pc → Next Pc Answer → Locks → Prop
  | quiet {pc : Pc} {next : Next Pc Answer} {s' : Locks} (waiting : s'.waiting = s.waiting)
      (signals : s'.breakRequests = s.breakRequests) (detected : s'.detected = s.detected)
      (hand : ∀ t, next.holds (waitHand t) (fun _ => 0) = waitHand t pc) : Effect s pc next s'
  | begins {req : Request} {number : Nat} {stage : Stage} {s' : Locks}
      (free : s.waiting req.me = none)
      (waiting : s'.waiting = Function.update s.waiting req.me (some number))
      (signals : s'.breakRequests = s.breakRequests) (none : s.breakRequests req.me = none)
      (detected : s'.detected = s.detected) :
      Effect s (.registerWaiter req) (.go (.wait req number stage)) s'
  | ends {req : Request} {number : Nat} {stage : Stage} {next : Next Pc Answer} {s' : Locks}
      (waiting : s'.waiting = Function.update s.waiting req.me none)
      (signals : ∀ t signal, s'.breakRequests t = some signal → s.breakRequests t = some signal)
      (detected : s'.detected = s.detected)
      (hand : ∀ t, next.holds (waitHand t) (fun _ => 0) = 0) :
      Effect s (.wait req number stage) next s'
  | detects {w : Search} {next : Next Pc Answer} {s' : Locks} (waiting : s'.waiting = s.waiting)
      (signals : s'.breakRequests = s.breakRequests)
      (detected : s'.detected = s.detected ++ [⟨w.snapshot, w.start⟩])
      (hand : ∀ t, next.holds (waitHand t) (fun _ => 0) = 0) : Effect s (.count w) next s'
  | signals {w : Search} {cycleId : UInt64} {s' : Locks} (waiting : s'.waiting = s.waiting)
      (signals : s'.breakRequests =
        Function.update s.breakRequests w.start (some ⟨cycleId, w.snapshot⟩))
      (detected : s'.detected = s.detected) :
      Effect s (.signal w cycleId) (.go (.search w)) s'

section Step

variable {s s' : Locks} {number : Nat} {next : Next Pc Answer}

theorem consumeOr_step {stage : Stage} {message : Bytes} {leave : Outcome → Pc}
    {otherwise : Pc × Locks} (hw : s.waiting req.me = some number) (hc : Current s)
    (hl : ∀ out, (∀ t, waitHand t (leave out) = 0) ∧
      (Explained s.detected req out → Valid s.detected (leave out)))
    (ho : Effect s (.wait req number stage) (.go otherwise.1) otherwise.2 ∧
      Lands otherwise.2.detected (.go otherwise.1))
    (hout : consumeOr s req number message leave otherwise = (next, s')) :
    Effect s (.wait req number stage) next s' ∧ Lands s'.detected next := by
  unfold consumeOr at hout
  split at hout
  · next signal hs =>
    obtain ⟨rfl, rfl⟩ := Prod.mk.inj hout
    obtain ⟨hd, hcy⟩ := hc req.me signal hs
    refine ⟨.ends rfl (fun t sig hsig => ?_) rfl fun t => (hl _).1 t, (hl _).2 ?_⟩
    · change Function.update s.breakRequests req.me none t = some sig at hsig
      rw [Function.update_apply] at hsig
      split at hsig
      · cases hsig
      · exact hsig
    · exact fun _ _ _ _ _ => ⟨number, signal, rfl, rfl, hd, hcy number hw⟩
  · obtain ⟨rfl, rfl⟩ := Prod.mk.inj hout
    exact ho

/-- A step that leaves the waits, the signals and the detections alone. -/
theorem apart {pc : Pc} (hl : Lands s.detected next)
    (hn : ∀ t, next.holds (waitHand t) (fun _ => 0) = waitHand t pc := by exact fun _ => rfl)
    (hw : s'.waiting = s.waiting := by rfl) (hs : s'.breakRequests = s.breakRequests := by rfl)
    (hd : s'.detected = s.detected := by rfl) : Effect s pc next s' ∧ Lands s'.detected next :=
  ⟨.quiet hw hs hd hn, hd ▸ hl⟩

/-- A wait is given up, with an error that is no deadlock. -/
theorem fails {stage : Stage} {e : SharedError} {message : Bytes} (he : e ≠ .deadlock) :
    Effect s (.wait req number stage) (.go (.dropWaiter req (failed number e message)))
        (s.endWait req.me) ∧
      Lands s.detected (.go (.dropWaiter req (failed number e message))) :=
  ⟨.ends rfl (fun _ _ h => h) rfl fun _ => rfl, explained_failed he⟩

theorem attempt_step {stage : Stage} (hout : (next, s') ∈ attempt s req number) :
    Effect s (.wait req number stage) next s' ∧ Lands s'.detected next := by
  unfold attempt at hout
  split at hout
  · cases hout
  · cases sole_outcome hout
    exact apart trivial

/-- **What a wait can do.** -/
theorem actWait_step {timeoutMs : Int64} (stage : Stage)
    (hw : s.waiting req.me = some number) (hc : Current s)
    (hout : (next, s') ∈ actWait s req number timeoutMs stage) :
    Effect s (.wait req number stage) next s' ∧ Lands s'.detected next := by
  cases stage with
  | consumeFirst | pollSignal =>
    refine consumeOr_step hw hc (fun out => ⟨fun _ => rfl, id⟩) ?_ (List.mem_singleton.mp hout).symm
    exact apart trivial
  | lockForever | tryLockFor =>
    rcases List.mem_append.mp hout with hout | hout
    · exact attempt_step hout
    · cases sole_outcome hout
      exact apart trivial
  | pollCorrupted =>
    dsimp only [actWait] at hout
    split at hout
    · cases sole_outcome hout
      exact fails (by decide)
    · cases sole_outcome hout
      exact apart trivial
  | pollRequestEnd =>
    rcases List.mem_cons.mp hout with hout | hout
    · cases hout
      exact fails (by decide)
    · cases sole_outcome hout
      exact apart trivial
  | tryLock =>
    dsimp only [actWait] at hout
    split at hout <;> cases sole_outcome hout <;> exact apart trivial
  | timedOut =>
    cases sole_outcome hout
    exact apart trivial
  | consumeLate =>
    refine consumeOr_step hw hc (fun out => ⟨fun _ => rfl, id⟩) ?_ (List.mem_singleton.mp hout).symm
    exact ⟨.ends rfl (fun _ _ h => h) rfl fun _ => rfl, explained_failed (by decide)⟩
  | promote =>
    cases sole_outcome hout
    exact ⟨.ends rfl (fun _ _ h => h) rfl fun _ => rfl, trivial⟩

theorem explained_closure (detected : List Detection) (s : Locks) (req : Request) (number : Nat) :
    Explained detected req ⟨(runClosure s req).answer, some number, none⟩ := by
  refine explained_of_ne fun timeoutMs f he ha => ?_
  have hc : runClosure s req = mutexWithClosure req.reg (s.inner req.id) req.invoke := by
    rw [runClosure, he]
  rw [hc] at ha
  exact mutexWithClosure_ne_deadlock ha

variable {c : Config Locks Pc Answer} {before : List Pc}

theorem pushHeld_step (hok : Prompt ⟨s, before, c.returned⟩ (.pushHeld req))
    (hout : (next, s') ∈ act (.pushHeld req) s) :
    Effect s (.pushHeld req) next s' ∧ Lands s'.detected next := by
  dsimp only [act] at hout
  split at hout
  · next hh =>
    cases sole_outcome hout
    exact apart (explained_of_ne fun timeoutMs _ he _ => absurd hh (hok timeoutMs he))
  · cases sole_outcome hout
    exact apart trivial

theorem registerWaiter_step (hok : Prompt ⟨s, before, c.returned⟩ (.registerWaiter req))
    (hout : (next, s') ∈ act (.registerWaiter req) s) :
    Effect s (.registerWaiter req) next s' ∧ Lands s'.detected next := by
  dsimp only [act] at hout
  split at hout
  · next timeoutMs he =>
    split at hout
    · cases hout
    · next hf =>
      cases sole_outcome hout
      exact ⟨.begins (Option.not_isSome_iff_eq_none.mp hf) rfl rfl (hok timeoutMs he) rfl, trivial⟩
  · cases sole_outcome hout
    exact apart trivial

theorem copy_step {level : LockDiagnosticsLevel} {first seen : List SharedId} {snap : Snapshot}
    (hout : (next, s') ∈ act (.copy level first seen snap) s) :
    Effect s (.copy level first seen snap) next s' ∧ Lands s'.detected next := by
  rcases List.mem_append.mp hout with hout | hout
  · obtain ⟨id, -, hout⟩ := List.mem_map.mp hout
    cases hout
    exact apart trivial
  · split at hout
    · cases sole_outcome hout
      exact apart trivial
    · cases hout

theorem nextStart_step {level : LockDiagnosticsLevel} {snap : Snapshot} {todo : List ThreadId}
    (hout : (next, s') ∈ act (.nextStart level snap todo) s) :
    Effect s (.nextStart level snap todo) next s' ∧ Lands s'.detected next := by
  dsimp only [act] at hout
  split at hout
  · cases sole_outcome hout
    exact apart trivial
  · obtain ⟨start, -, hout⟩ := List.mem_map.mp hout
    cases hout
    refine apart fun t ht => ?_
    rw [List.mem_singleton.mp ht]

theorem search_step {w : Search} (hv : w.Walked) (hout : (next, s') ∈ act (.search w) s) :
    Effect s (.search w) next s' ∧ Lands s'.detected next := by
  cases sole_outcome hout
  rcases actSearch_spec hv with ⟨_, _, _, hn⟩ | ⟨w', hn, hw'⟩ | ⟨w', hn, hw'⟩
  · rw [hn]
    exact apart trivial
  · rw [hn]
    exact apart hw'
  · rw [hn]
    exact apart hw'

/-- **What a step can do.** -/
theorem act_step {pc : Pc} (hv : Valid s.detected pc) (hok : Prompt ⟨s, before, c.returned⟩ pc)
    (hw : ∀ req number stage, pc = .wait req number stage → s.waiting req.me = some number)
    (hc : Current s) (hout : (next, s') ∈ act pc s) :
    Effect s pc next s' ∧ Lands s'.detected next := by
  cases pc with
  | pushHeld req => exact pushHeld_step hok hout
  | registerWaiter req => exact registerWaiter_step hok hout
  | wait req number stage =>
    dsimp only [act] at hout
    split at hout
    · exact actWait_step stage (hw req number stage rfl) hc hout
    · cases hout
  | checkCorrupted req =>
    dsimp only [act] at hout
    split at hout
    · cases sole_outcome hout
      refine apart (explained_of_ne fun _ f _ ha => ?_)
      cases ha
      decide
    · cases sole_outcome hout
      exact apart trivial
  | tryOnce req number | underLock req number =>
    dsimp only [act] at hout
    split at hout
    · cases sole_outcome hout
      exact apart (explained_failed (by decide))
    · cases sole_outcome hout
      exact apart trivial
  | promoteOnce req number =>
    cases sole_outcome hout
    exact apart trivial
  | dropWaiter req out | dropHolder req out | unlock req out | popHeld req out | loadId w =>
    cases sole_outcome hout
    exact apart hv
  | invoke req number =>
    cases sole_outcome hout
    exact apart (explained_closure _ s req number)
  | scanStart level =>
    dsimp only [act] at hout
    split at hout <;> cases sole_outcome hout <;> exact apart trivial
  | copy level first seen snap => exact copy_step hout
  | nextStart level snap todo => exact nextStart_step hout
  | search w => exact search_step hv hout
  | count w =>
    cases sole_outcome hout
    split
    · refine ⟨.detects rfl rfl rfl fun _ => rfl, hv.1, hv.2, ?_⟩
      exact List.mem_append_right _ List.mem_cons_self
    · exact ⟨.detects rfl rfl rfl fun _ => rfl, hv.1⟩
  | signal w cycleId =>
    cases sole_outcome hout
    exact ⟨.signals rfl rfl rfl, hv.1⟩

end Step

/-! ## Whole runs -/

section Run

variable {c c' : Config Locks Pc Answer} {s s' : Locks} {pc : Pc} {next : Next Pc Answer}
  {before after : List Pc}

structure Sound (c : Config Locks Pc Answer) : Prop where
  pcs : ∀ pc ∈ c.running, Valid c.shared.detected pc
  answers : ∀ answer ∈ c.returned, Lands c.shared.detected (.ret answer)
  waits : ∀ t, c.inHands (waitHand t) = ((c.shared.waiting t).toList : Multiset Nat)
  current : Current c.shared

theorem Effect.detected_subset (h : Effect s pc next s') : s.detected ⊆ s'.detected := by
  cases h with
  | quiet _ _ hde _ | begins _ _ _ _ hde | ends _ _ hde _ | signals _ _ hde =>
    exact hde ▸ fun _ hd => hd
  | detects _ _ hde _ => exact hde ▸ List.subset_append_left _ _

theorem Effect.current (h : Effect s pc next s') (hc : Current s)
    (hv : Valid s.detected pc) (hok : Prompt ⟨s, before, c.returned⟩ pc) : Current s' := by
  intro t signal hs
  cases h with
  | quiet hw hsi hd _ =>
    rw [hw, hd]
    exact hc t signal (hsi ▸ hs)
  | @begins req number stage _ hf hw hsi hno hd =>
    rw [hsi] at hs
    have ht : t ≠ req.me := by
      rintro rfl
      cases hno.symm.trans hs
    rw [hw, hd, Function.update_of_ne ht]
    exact hc t signal hs
  | @ends req number stage _ _ hw hsi hd _ =>
    obtain ⟨hmem, hcy⟩ := hc t signal (hsi t signal hs)
    rw [hw, hd]
    refine ⟨hmem, fun n hn => ?_⟩
    rw [Function.update_apply] at hn
    split at hn
    · cases hn
    · exact hcy n hn
  | detects hw hsi hd _ =>
    obtain ⟨hmem, hcy⟩ := hc t signal (hsi ▸ hs)
    rw [hw, hd]
    exact ⟨List.mem_append_left _ hmem, hcy⟩
  | @signals w cycleId _ hw hsi hd =>
    rw [hsi] at hs
    rw [hw, hd]
    by_cases ht : t = w.start
    · rw [ht, Function.update_self] at hs
      cases hs
      obtain ⟨-, hcy, hmem⟩ := hv
      obtain ⟨seen, hse, htid, hth⟩ := Snapshot.exists_cycleThrough hcy
      refine ⟨ht ▸ hmem, fun n hn => ?_⟩
      rw [ht] at hn ⊢
      exact hok n hn seen hse htid ▸ hth
    · rw [Function.update_of_ne ht] at hs
      exact hc t signal hs

theorem Sound.waiting_eq (h : Sound c) {req : Request} {number : Nat} {stage : Stage}
    (hmem : .wait req number stage ∈ c.running) : c.shared.waiting req.me = some number := by
  have hin : number ∈ c.inHands (waitHand req.me) := by
    refine mem_sum_map.mpr ⟨_, hmem, ?_⟩
    rw [waitHand, if_pos rfl]
    exact Multiset.mem_singleton_self number
  rw [h.waits, Multiset.mem_coe, Option.mem_toList] at hin
  exact hin

theorem Sound.waits_step (h : Sound c) (hrunning : c.running = before ++ pc :: after)
    (he : Effect c.shared pc next s') {returned : List Answer} (t : ThreadId) :
    (⟨s', before ++ next.pcs ++ after, returned⟩ : Config Locks Pc Answer).inHands (waitHand t) =
      ((s'.waiting t).toList : Multiset Nat) := by
  have hh := Config.inHands_act hrunning (waitHand t) next s' returned
  rw [h.waits t] at hh
  cases he with
  | quiet hw _ _ hha | detects hw _ _ hha =>
    rw [hha t] at hh
    rw [hw]
    exact add_right_cancel hh
  | @begins req number stage _ hf hw _ _ _ =>
    simp only [waitHand, Next.holds, add_zero] at hh
    rw [hh, hw]
    by_cases ht : req.me = t
    · subst ht
      simp [hf]
    · simp [ht, Function.update_of_ne (Ne.symm ht)]
  | @ends req number stage _ _ hw _ _ hha =>
    simp only [hha t, add_zero, waitHand] at hh
    rw [hw]
    by_cases ht : req.me = t
    · subst ht
      rw [if_pos rfl, h.waiting_eq (Config.mem_running hrunning)] at hh
      rw [Function.update_self]
      exact add_right_cancel (hh.trans (zero_add ({number} : Multiset Nat)).symm)
    · rw [if_neg ht, add_zero] at hh
      rw [hh, Function.update_of_ne (Ne.symm ht)]
  | signals hw _ _ =>
    rw [hw]
    exact add_right_cancel (b := 0) hh

theorem Sound.step (h : Sound c) (hf : machine.Fires Prompt c c') : Sound c' := by
  cases hf with
  | call k =>
    have hh : ∀ t, waitHand t k.start = 0 := by cases k <;> exact fun _ => rfl
    have hv : Valid c.shared.detected k.start := by cases k <;> trivial
    exact ⟨forall_called h.pcs hv, h.answers,
      fun t => (Config.inHands_called (hh t)).trans (h.waits t), h.current⟩
  | env e => exact nomatch e
  | @act before after pc next s' hrunning hmet hout =>
    have hmem : pc ∈ c.running := Config.mem_running hrunning
    have hv := h.pcs pc hmem
    obtain ⟨he, hl⟩ := act_step (c := c) hv hmet
      (fun req number stage hpc => h.waiting_eq (hpc ▸ hmem)) h.current hout
    have hsub := he.detected_subset
    refine ⟨?_, ?_, h.waits_step hrunning he, he.current (c := c) h.current hv hmet⟩
    · refine forall_running (fun x hx => (h.pcs x (hrunning ▸ hx)).mono hsub) fun x hx => ?_
      cases next with
      | go pc' => exact List.mem_singleton.mp hx ▸ hl
      | ret answer => cases hx
    · intro answer ha
      rcases List.mem_append.mp ha with ha | ha
      · have hold := h.answers answer ha
        cases answer with
        | locked req out => exact Explained.mono hold hsub
        | scanned => trivial
      · cases next with
        | go pc' => cases ha
        | ret answer' => exact List.mem_singleton.mp ha ▸ hl

end Run

theorem sound_start (inner : SharedId → MutexInner) : Sound (start inner) where
  pcs := fun _ hpc => absurd hpc List.not_mem_nil
  answers := fun _ ha => absurd ha List.not_mem_nil
  waits := fun _ => rfl
  current := by
    intro t signal hs
    cases hs

/-- **Deadlocks are one's own.** In every schedule of scans and calls in which no
wait begins under a signal, no scan signals a thread on the word of another wait,
and no call re-enters, a `withLock` that reports a deadlock has taken a signal
that a scan left for a cycle with this very wait on it. -/
theorem deadlock_is_own (inner : SharedId → MutexInner) {moves : List (Move Call Empty)}
    {c : Config Locks Pc Answer} (hok : machine.Along Prompt (start inner) moves)
    (hrun : machine.run (start inner) moves = some c) {req : Request} {out : Outcome}
    {timeoutMs : Int64} {f : Failure} (hanswer : .locked req out ∈ c.returned)
    (hentry : req.entry = .withLock timeoutMs) (herror : out.answer = .error f)
    (hdeadlock : f.error = .deadlock) : OwnCycle c.shared.detected req out :=
  (machine.run_invariant (fun _ _ h hf => Sound.step h hf) (sound_start inner) hok
    hrun).answers _ hanswer timeoutMs f hentry herror hdeadlock

/-! ## Two schedules -/

section Schedules

/-- A call without a timeout; its closure leaves the state alone. -/
def request (me : ThreadId) (id : SharedId) (rc : InvokeRc) : Request :=
  ⟨me, id, .withLock (-1), .empty ⟨10, 1000⟩ 1, some ⟨rc, [], [], false⟩⟩

def acts (op : Nat) (choices : List Nat) : List (Move Call Empty) := choices.map (.act op)

/-- Thread 1 has Mutex 1 and waits for Mutex 2, thread 2 the other way round; a
scan finds the cycle and signals thread 1. -/
def crossed : List (Move Call Empty) :=
  [Move.call (Call.lock (request 1 1 .ok))] ++ acts 0 [0, 0, 0, 0, 0, 0, 0] ++
  [Move.call (Call.lock (request 2 2 .phpThrew))] ++ acts 1 [0, 0, 0, 0, 0, 0, 0] ++
  [Move.call (Call.lock (request 1 2 .ok))] ++ acts 2 [0, 0, 0, 0] ++
  [Move.call (Call.lock (request 2 1 .ok))] ++ acts 3 [0, 0, 0, 0] ++
  [Move.call (Call.scan .strict)] ++ acts 4 [0, 0, 0, 0, 1, 0, 0, 0, 0, 0]

def broken1 : List (Move Call Empty) := crossed ++ acts 2 [0, 0, 0, 0, 0]

/-- The scan signals thread 2 as well, and thread 2 takes its signal first.  Its
closure throws, Mutex 2 is released, and thread 1 gets it.  All calls end, and
thread 1 calls `withLock` on Mutex 3, which nobody else has ever touched. -/
def later : List (Move Call Empty) :=
  crossed ++ acts 4 [0, 0, 0, 0, 0, 0, 0, 0, 0] ++ acts 3 [0, 0, 0, 0, 0] ++
  acts 1 [0, 0, 0, 0] ++ acts 1 [0, 0, 0, 0, 0, 0, 0] ++ acts 0 [0, 0, 0, 0] ++
  [Move.call (Call.lock (request 1 3 .ok))] ++ acts 0 [0, 0, 0, 0, 0, 0]

def fresh : SharedId → MutexInner := fun _ => ⟨.null, false⟩

def reportsDeadlock (out : Outcome) : Bool :=
  match out.answer with
  | .error f => f.error == .deadlock
  | .ok _ => false

theorem reportsDeadlock_iff {out : Outcome} :
    reportsDeadlock out = true ↔ ∃ f, out.answer = .error f ∧ f.error = .deadlock := by
  unfold reportsDeadlock
  split
  · next f ha => simp [ha]
  · next ret ha => simp [ha]

/-- The last answer is a deadlock of a `withLock` without a timeout. -/
def lastIs (test : Outcome → Bool) (c : Config Locks Pc Answer) : Bool :=
  match c.returned.getLast? with
  | some (.locked req out) =>
    (match req.entry with
      | .withLock timeoutMs => timeoutMs == -1
      | .tryWithLock => false) && reportsDeadlock out && test out
  | _ => false

theorem lastIs_spec {test : Outcome → Bool} {c : Config Locks Pc Answer}
    (h : lastIs test c = true) :
    ∃ req out f, .locked req out ∈ c.returned ∧ req.entry = .withLock (-1) ∧
      out.answer = .error f ∧ f.error = .deadlock ∧ test out = true := by
  unfold lastIs at h
  split at h
  · next req out hlast =>
    rw [Bool.and_eq_true, Bool.and_eq_true] at h
    obtain ⟨⟨he, hd⟩, ht⟩ := h
    obtain ⟨f, ha, hf⟩ := reportsDeadlock_iff.mp hd
    refine ⟨req, out, f, List.mem_of_getLast? hlast, ?_, ha, hf, ht⟩
    split at he
    · next timeoutMs hreq => rw [hreq, beq_iff_eq.mp he]
    · cases he
  · cases h

def promptCheck (c : Config Locks Pc Answer) : Pc → Bool
  | .registerWaiter req => (c.shared.breakRequests req.me).isNone
  | .signal w _ => (c.shared.waiting w.start).all fun number =>
    w.snapshot.waits.all fun seen => seen.tid != w.start || seen.number == number
  | .pushHeld req => req.id ∉ c.shared.held req.me
  | _ => true

theorem prompt_of_check (c : Config Locks Pc Answer) (pc : Pc) (h : promptCheck c pc = true) :
    Prompt c pc := by
  cases pc with
  | registerWaiter req => exact fun _ _ => Option.isNone_iff_eq_none.mp h
  | signal w cycleId =>
    intro number hn seen hs htid
    dsimp only [promptCheck] at h
    rw [hn] at h
    have hall := List.all_eq_true.mp h seen hs
    rw [htid, bne_self_eq_false, Bool.false_or] at hall
    exact beq_iff_eq.mp hall
  | pushHeld req => exact fun _ _ => of_decide_eq_true h
  | _ => trivial

theorem deadlock_is_own_broken1 :
    ∃ c req out, machine.run (start fresh) broken1 = some c ∧ .locked req out ∈ c.returned ∧
      reportsDeadlock out = true ∧ OwnCycle c.shared.detected req out := by
  obtain ⟨c, hrun, hlast⟩ : ∃ c, machine.run (start fresh) broken1 = some c ∧
      lastIs (fun _ => true) c = true :=
    (Option.any_eq_true _ _).mp (by decide +kernel)
  have hok : machine.Along Prompt (start fresh) broken1 :=
    Machine.along_of_check prompt_of_check
      (show machine.checkAlong promptCheck (start fresh) broken1 = true by decide +kernel)
  obtain ⟨req, out, f, hmem, he, ha, hd, -⟩ := lastIs_spec hlast
  exact ⟨c, req, out, hrun, hmem, reportsDeadlock_iff.mpr ⟨f, ha, hd⟩,
    deadlock_is_own fresh hok hrun hmem he ha hd⟩

/-- The call on Mutex 3 reports a deadlock, and no scan has seen its wait. -/
theorem stale_signal_breaks_later_wait :
    ∃ c req out f, machine.run (start fresh) later = some c ∧ .locked req out ∈ c.returned ∧
      req.entry = .withLock (-1) ∧ out.answer = .error f ∧ f.error = .deadlock ∧
      ∀ d ∈ c.shared.detected, ∀ w ∈ d.snapshot.waits, out.number ≠ some w.number := by
  obtain ⟨c, hrun, hlast⟩ : ∃ c, machine.run (start fresh) later = some c ∧
      lastIs (fun out => c.shared.detected.all fun d => d.snapshot.waits.all fun w =>
        out.number != some w.number) c = true :=
    (Option.any_eq_true _ _).mp (by decide +kernel)
  obtain ⟨req, out, f, hmem, he, ha, hde, hu⟩ := lastIs_spec hlast
  refine ⟨c, req, out, f, hrun, hmem, he, ha, hde, fun d hd w hw => ?_⟩
  exact bne_iff_ne.mp (List.all_eq_true.mp (List.all_eq_true.mp hu d hd) w hw)

end Schedules

end OxPhp.Shared.Deadlock
