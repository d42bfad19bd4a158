import OxPhp.Async.Promises
import OxPhp.Lib.Effect
import OxPhp.Shared.Portbuf

/-!
# Dispatching a task

`oxphp_async()`: the handler in `plugins/ox_async/functions.rs` and
`async_dispatch_callback` in `php/sapi.rs`.  The permit a dispatch takes has a
guard; everything else is given back by the one arm in which the queue refuses
the task.
-/

namespace OxPhp.Async

open ByteStr Effect
open OxPhp.Shared (Key Zval leBytes portbufKey portbufSerZval)

/-! ## What crosses over -/

/-- The closure's variables: `portbuf_ser_table` with `keep_refs`, which writes a
slot that holds a reference as one. -/
def portbufSerVars : List (Key × Zval) → Option Bytes
  | [] => some []
  | (key, .reference v) :: table => do
    let member ← portbufSerZval v
    let members ← portbufSerVars table
    return portbufKey key ++ 8 :: member ++ members
  | (key, v) :: table => do
    let member ← portbufSerZval v
    let members ← portbufSerVars table
    return portbufKey key ++ member ++ members

def portableSerializeClosureVars (table : List (Key × Zval)) : Option Bytes := do
  let members ← portbufSerVars table
  return 6 :: leBytes 4 table.length ++ members

def portableSerialize (args : List Zval) : Option Bytes := do
  let members ← args.mapM portbufSerZval
  return members.flatten

structure Buffer where
  address : Nat
  bytes : Bytes
  deriving DecidableEq

structure RawZval where
  value : UInt64
  typeInfo : UInt32
  extra : UInt32
  deriving DecidableEq

/-- `oxphp_create_borrow_proxy`, given the new object; there is none before its
class is registered. -/
def createBorrowProxy (proxy : Option UInt64) (z : RawZval) : RawZval :=
  match proxy with
  | some object => { z with value := object, typeInfo := 0x308 }
  | none => { z with typeInfo := 1 }

/-- The bytes `$this` had, and whether there is a reference to the closure.
Nothing is frozen any more at dispatch. -/
structure PromiseCleanup where
  borrowed : List RawZval
  closureZval : Bool
  codeInRequestMemory : Bool

structure AsyncTask where
  promiseId : Nat
  opArrayBuf : Buffer
  serializedStaticVars : Option Buffer
  bindThis : Bool
  argc : Nat
  serializedArgs : Option Buffer
  codeInRequestMemory : Bool

/-- What the calling request and the process hold. -/
structure Dispatcher where
  refcount : Nat
  this : RawZval
  inFlight : Nat
  buffers : List Buffer
  nextAddress : Nat
  tables : PromiseTables Nat PromiseCleanup
  queue : List AsyncTask
  dispatched : Nat
  rejected : Nat

/-! ## A call -/

structure Closure where
  opArray : Bytes
  staticVars : Option (List (Key × Zval))
  bindsThis : Bool
  opArrayInRequestMemory : Bool

structure Call where
  /-- Nothing if the first argument is not the Closure of a user function. -/
  closure : Option Closure
  args : List Zval

structure Queue where
  capacity : Nat
  connected : Bool

structure World where
  enabled : Bool
  queue : Option Queue
  /-- The cap of the in-flight counter, if one is installed. -/
  inFlightLimit : Option Nat
  currentFiber : FiberId
  proxy : Option UInt64
  taskCodeInRequestMemory : Bool
  unbound : Nat → Bool
  memoryForVars : Bool
  memoryForArgs : Bool
  memoryForOpArray : Bool

section Dispatch

variable (w : World)

abbrev DispatchM := EStateM Unit Dispatcher

def malloc (enough : Bool) (bytes : Bytes) : DispatchM Buffer := do
  if enough then
    let s ← get
    let buffer : Buffer := ⟨s.nextAddress, bytes⟩
    set { s with buffers := buffer :: s.buffers, nextAddress := s.nextAddress + 1 }
    return buffer
  else throw ()

def free (buffer : Buffer) : DispatchM Unit :=
  modify fun s => { s with buffers := s.buffers.erase buffer }

def serialize (enough : Bool) : Option Bytes → DispatchM Buffer
  | some bytes => malloc enough bytes
  | none => do
    let buffer ← malloc enough []
    free buffer
    throw ()

def asyncInflightTryAcquire : DispatchM Bool := do
  match w.inFlightLimit with
  | none => return true
  | some limit =>
    let s ← get
    if limit ≤ s.inFlight then return false
    set { s with inFlight := s.inFlight + 1 }
    return true

def asyncInflightRelease (s : Dispatcher) : Dispatcher :=
  match w.inFlightLimit with
  | none => s
  | some _ => { s with inFlight := s.inFlight - 1 }

/-- `InflightPermitGuard`: every early return gives the permit back. -/
def withPermit {α : Type} (x : DispatchM α) : DispatchM α := fun s =>
  match x s with
  | .ok a s' => .ok a s'
  | .error e s' => .error e (asyncInflightRelease w s')

def serializeVars : Option (List (Key × Zval)) → DispatchM (Option Buffer)
  | none => pure none
  | some table => some <$> serialize w.memoryForVars (portableSerializeClosureVars table)

def serializeArgs : List Zval → DispatchM (Option Buffer)
  | [] => pure none
  | args => some <$> serialize w.memoryForArgs (portableSerialize args)

def nextPromiseId : DispatchM Nat := do
  let s ← get
  set { s with tables := s.tables.nextPromiseId.2 }
  return s.tables.nextPromiseId.1

/-- Put a proxy in the place of `$this` and keep the bytes it had. -/
def borrowThis : Bool → DispatchM (List RawZval)
  | false => pure []
  | true => do
    let s ← get
    set { s with this := createBorrowProxy w.proxy s.this }
    return [s.this]

def buildTask (closure : Closure) (args : List Zval) : DispatchM (AsyncTask × PromiseCleanup) := do
  let promiseId ← nextPromiseId
  modify fun s => { s with refcount := s.refcount + 1 }
  let codeInRequestMemory := closure.opArrayInRequestMemory || w.taskCodeInRequestMemory
  let vars ← serializeVars w closure.staticVars
  let borrowed ← borrowThis w closure.bindsThis
  let serializedArgs ← serializeArgs w args
  let opArrayBuf ← malloc w.memoryForOpArray closure.opArray
  return (⟨promiseId, opArrayBuf, vars, closure.bindsThis, args.length, serializedArgs,
    codeInRequestMemory⟩, ⟨borrowed, true, codeInRequestMemory⟩)

def trySend (queue : Queue) (task : AsyncTask) : DispatchM Bool := do
  let s ← get
  if queue.connected && s.queue.length < queue.capacity then
    set { s with queue := s.queue ++ [task] }
    return true
  else return false

/-- The arm in which the queue is full or closed. -/
def rollback (task : AsyncTask) (cleanup : PromiseCleanup) : DispatchM Unit := do
  free task.opArrayBuf
  cleanup.borrowed.forM fun original => modify fun s => { s with this := original }
  task.serializedArgs.forM free
  task.serializedStaticVars.forM free
  modify fun s =>
    { s with
      refcount := if cleanup.closureZval then s.refcount - 1 else s.refcount
      rejected := s.rejected + 1 }

def asyncDispatchCallback (closure : Closure) (args : List Zval) : DispatchM Nat := do
  match w.queue with
  | none => throw ()
  | some queue =>
    if !(← asyncInflightTryAcquire w) then
      modify fun s => { s with rejected := s.rejected + 1 }
      throw ()
    withPermit w do
      let (task, cleanup) ← buildTask w closure args
      if ← trySend queue task then
        modify fun s =>
          { s with
            tables := (s.tables.storePromise w.currentFiber task.promiseId task.promiseId)
              |>.storePromiseCleanup w.currentFiber task.promiseId cleanup
            dispatched := s.dispatched + 1 }
        return task.promiseId
      else
        rollback task cleanup
        throw ()

/-! ## What can cross -/

def varsCross : Option (List (Key × Zval)) → Bool
  | none => true
  | some table => w.memoryForVars && (portableSerializeClosureVars table).isSome

def argsCross : List Zval → Bool
  | [] => true
  | args => w.memoryForArgs && (portableSerialize args).isSome

def crosses (closure : Closure) (args : List Zval) : Bool :=
  varsCross w closure.staticVars && argsCross w args && w.memoryForOpArray

/-! ## The handler -/

mutual

/-- `oxphp_ht_has_non_shareable_objects`, for one slot. -/
def hasNonShareable : Zval → Bool
  | .resource => true
  | .object handle wraps => !(wraps.isSome || w.unbound handle)
  | .array table => htHasNonShareableObjects table
  -- one reference is looked through
  | .reference v => hasNonShareable v
  | _ => false

def htHasNonShareableObjects : List (Key × Zval) → Bool
  | [] => false
  | (_, v) :: table => hasNonShareable v || htHasNonShareableObjects table

end

/-- The arguments are looked at on the outside only. -/
def checkArgs (i : Nat) : List Zval → Except Bytes Unit
  | [] => .ok ()
  | .resource :: _ =>
    .error (str "oxphp_async(): argument " ++ str (toString i) ++ str " must not be a resource")
  | .object handle wraps :: args =>
    if wraps.isSome || w.unbound handle then checkArgs (i + 1) args
    else
      .error (str "oxphp_async(): argument " ++ str (toString i) ++
        str " is a non-Shareable object; only OxPHP\\Shared\\* instances may cross thread boundary")
  | _ :: args => checkArgs (i + 1) args

def disabledMsg : Bytes := str "Async pool is disabled. Set ASYNC_WORKERS > 0 to enable."

def checkCall (call : Call) : Except Bytes Closure :=
  if !w.enabled then .error disabledMsg
  else
    match call.closure with
    | none => .error (str "oxphp_async(): first argument must be a Closure")
    | some closure =>
      if (closure.staticVars.map (htHasNonShareableObjects w)).getD false then
        .error (str "oxphp_async(): closure use-vars must not contain resources or " ++
          str "non-Shareable objects")
      else
        match checkArgs w 1 call.args with
        | .error e => .error e
        | .ok () => .ok closure

/-- `oxphp_async()`: a promise id, or the message of an `AsyncException`. -/
def handlerAsync (call : Call) : EStateM Bytes Dispatcher Nat := do
  let closure ← check (checkCall w call)
  EStateM.adaptExcept (fun () => str "oxphp_async(): failed to dispatch async task")
    (asyncDispatchCallback w closure call.args)

end Dispatch

/-! ## What a call that is refused leaves behind -/

section Spec

variable {w : World} {closure : Closure} {args : List Zval} {s s' : Dispatcher}

structure Allocated (s s' : Dispatcher) (news : List Buffer) : Prop where
  refcount : s'.refcount = s.refcount
  this : s'.this = s.this
  inFlight : s'.inFlight = s.inFlight
  tables : s'.tables = s.tables
  buffers : s'.buffers = news ++ s.buffers

theorem malloc_ends (enough : Bool) (bytes : Bytes) (s : Dispatcher) :
    Ends (malloc enough bytes) s (fun buffer s' => enough = true ∧ Allocated s s' [buffer])
      (fun _ s' => enough = false ∧ Allocated s s' []) := by
  cases enough with
  | true | false => exact ⟨rfl, rfl, rfl, rfl, rfl, rfl⟩

theorem serialize_ends (enough : Bool) (bytes : Option Bytes) (s : Dispatcher) :
    Ends (serialize enough bytes) s
      (fun buffer s' => (enough && bytes.isSome) = true ∧ Allocated s s' [buffer])
      (fun _ s' => (enough && bytes.isSome) = false ∧ Allocated s s' []) := by
  cases bytes with
  | some bytes =>
    rw [Option.isSome_some, Bool.and_true]
    exact malloc_ends enough bytes s
  | none =>
    rw [Option.isSome_none, Bool.and_false]
    refine Ends.bind ((malloc_ends enough [] s).imp ?_ fun _ s' h => ⟨rfl, h.2⟩)
    rintro buffer s' ⟨-, h⟩
    refine Ends.bind (ends_modify (ends_throw ⟨rfl, h.refcount, h.this, h.inFlight, h.tables, ?_⟩))
    exact (congrArg (fun buffers => List.erase buffers buffer) h.buffers).trans
      (List.erase_cons_head buffer s.buffers)

theorem serializeVars_ends (vars : Option (List (Key × Zval))) (s : Dispatcher) :
    Ends (serializeVars w vars) s
      (fun buffer s' => varsCross w vars = true ∧ Allocated s s' buffer.toList)
      (fun _ s' => varsCross w vars = false ∧ Allocated s s' []) := by
  cases vars with
  | none => exact ends_pure ⟨rfl, rfl, rfl, rfl, rfl, rfl⟩
  | some table => exact ends_map (serialize_ends _ _ s)

theorem serializeArgs_ends (args : List Zval) (s : Dispatcher) : Ends (serializeArgs w args) s
      (fun buffer s' => argsCross w args = true ∧ Allocated s s' buffer.toList)
      (fun _ s' => argsCross w args = false ∧ Allocated s s' []) := by
  cases args with
  | nil => exact ends_pure ⟨rfl, rfl, rfl, rfl, rfl, rfl⟩
  | cons arg args => exact ends_map (serialize_ends _ _ s)

def AsyncTask.buffers (task : AsyncTask) : List Buffer :=
  task.opArrayBuf :: (task.serializedArgs.toList ++ task.serializedStaticVars.toList)

/-- What is taken for a task that has been built. -/
structure Holding (s s' : Dispatcher) (task : AsyncTask) (cleanup : PromiseCleanup) : Prop where
  refcount : s'.refcount = s.refcount + 1
  closure : cleanup.closureZval = true
  this : cleanup.borrowed = [s.this] ∨ cleanup.borrowed = [] ∧ s'.this = s.this
  inFlight : s'.inFlight = s.inFlight
  tables : s'.tables = { s.tables with promiseCounter := s'.tables.promiseCounter }
  buffers : s'.buffers = task.buffers ++ s.buffers

theorem borrowThis_ends (bindsThis : Bool) (s : Dispatcher) (E : Unit → Dispatcher → Prop) :
    Ends (borrowThis w bindsThis) s
      (fun borrowed s' => (borrowed = [s.this] ∨ borrowed = [] ∧ s'.this = s.this) ∧
        s'.refcount = s.refcount ∧ s'.inFlight = s.inFlight ∧ s'.tables = s.tables ∧
        s'.buffers = s.buffers) E := by
  cases bindsThis with
  | false => exact ends_pure ⟨.inr ⟨rfl, rfl⟩, rfl, rfl, rfl, rfl⟩
  | true => exact ⟨.inl rfl, rfl, rfl, rfl, rfl⟩

variable {E : Unit → Dispatcher → Prop}

theorem nextPromiseId_ends {Q : Nat → Dispatcher → Prop}
    (h : Q s.tables.promiseCounter { s with tables := s.tables.nextPromiseId.2 }) :
    Ends nextPromiseId s Q E := h

theorem buildTask_ends (s : Dispatcher) : Ends (buildTask w closure args) s
      (fun built s' => crosses w closure args = true ∧ Holding s s' built.1 built.2)
      (fun _ s' => crosses w closure args = false ∧ s'.refcount = s.refcount + 1) := by
  unfold crosses
  refine Ends.bind (nextPromiseId_ends (Ends.bind (ends_modify ?_)))
  refine Ends.bind ((serializeVars_ends _ _).imp ?_ fun _ s' h => ?_)
  · rintro vars s₁ ⟨hv, hs₁⟩
    refine Ends.bind ((borrowThis_ends _ _ _).imp ?_ fun _ _ h => h)
    rintro borrowed s₂ ⟨hth, hr, hin, ht, hb⟩
    refine Ends.bind ((serializeArgs_ends _ _).imp ?_ fun _ s' h => ?_)
    · rintro serializedArgs s₃ ⟨ha, hs₃⟩
      refine Ends.bind ((malloc_ends _ _ _).imp ?_ fun _ s' h => ?_)
      · rintro opArrayBuf s₄ ⟨hop, hs₄⟩
        refine ends_pure ⟨by rw [hv, ha, hop]; rfl, ?_, rfl, ?_, ?_, ?_, ?_⟩
        · rw [hs₄.refcount, hs₃.refcount, hr, hs₁.refcount]
        · rw [hs₄.this, hs₃.this]
          rcases hth with hth | ⟨hn, hs⟩
          · exact .inl (hth.trans (congrArg (fun z => [z]) hs₁.this))
          · exact .inr ⟨hn, hs.trans hs₁.this⟩
        · rw [hs₄.inFlight, hs₃.inFlight, hin, hs₁.inFlight]
        · rw [hs₄.tables, hs₃.tables, ht, hs₁.tables]
          rfl
        · rw [hs₄.buffers, hs₃.buffers, hb, hs₁.buffers, AsyncTask.buffers,
            List.singleton_append, List.cons_append, List.append_assoc]
      · refine ⟨by rw [h.1, Bool.and_false], ?_⟩
        rw [h.2.refcount, hs₃.refcount, hr, hs₁.refcount]
    · refine ⟨by rw [h.1, Bool.and_false, Bool.false_and], ?_⟩
      rw [h.2.refcount, hr, hs₁.refcount]
  · refine ⟨by rw [h.1, Bool.false_and, Bool.false_and], ?_⟩
    rw [h.2.refcount]

/-- As if the call had not happened: the closure's references, `$this`, the
counter of tasks in flight, the promises and the buffers.  The promise id is
used up. -/
structure Untouched (s s' : Dispatcher) : Prop where
  refcount : s'.refcount = s.refcount
  this : s'.this = s.this
  inFlight : s'.inFlight = s.inFlight
  tables : s'.tables = { s.tables with promiseCounter := s'.tables.promiseCounter }
  buffers : s'.buffers = s.buffers

theorem free_ends {buffer : Buffer} {Q : Unit → Dispatcher → Prop}
    (h : Q () { s with buffers := s.buffers.erase buffer }) : Ends (free buffer) s Q E := h

theorem freeAll_ends {buffer : Option Buffer} {rest : List Buffer}
    {Q : Unit → Dispatcher → Prop} (hs : s.buffers = buffer.toList ++ rest)
    (h : Q () { s with buffers := rest }) : Ends (buffer.forM free) s Q E := by
  cases buffer with
  | none =>
    obtain rfl : s.buffers = rest := hs
    exact ends_pure h
  | some buffer =>
    refine free_ends ?_
    rw [hs]
    change Q () { s with buffers := List.erase (buffer :: rest) buffer }
    rw [List.erase_cons_head]
    exact h

/-- **The rollback undoes the dispatch.** -/
theorem rollback_ends {s₁ : Dispatcher} {task : AsyncTask} {cleanup : PromiseCleanup}
    (h : Holding s s₁ task cleanup) (E : Unit → Dispatcher → Prop) :
    Ends (rollback task cleanup) s₁ (fun _ s₂ => Untouched s s₂) E := by
  have hop : s₁.buffers.erase task.opArrayBuf =
      task.serializedArgs.toList ++ (task.serializedStaticVars.toList ++ s.buffers) := by
    rw [h.buffers, AsyncTask.buffers, List.cons_append, List.erase_cons_head, List.append_assoc]
  have hre : ∀ s₂ : Dispatcher, s₂.refcount = s.refcount + 1 → s₂.this = s.this →
      s₂.inFlight = s.inFlight →
      s₂.tables = { s.tables with promiseCounter := s₂.tables.promiseCounter } →
      s₂.buffers = task.serializedArgs.toList ++ (task.serializedStaticVars.toList ++ s.buffers) →
      Ends (do
        task.serializedArgs.forM free
        task.serializedStaticVars.forM free
        modify fun s =>
          { s with
            refcount := if cleanup.closureZval then s.refcount - 1 else s.refcount
            rejected := s.rejected + 1 }) s₂ (fun _ s₃ => Untouched s s₃) E := by
    intro s₂ hr hth hin ht hb
    refine Ends.bind (freeAll_ends hb ?_)
    refine Ends.bind (freeAll_ends rfl (ends_modify ?_))
    refine ⟨?_, hth, hin, ht, rfl⟩
    change (if cleanup.closureZval = true then s₂.refcount - 1 else s₂.refcount) = s.refcount
    rw [if_pos h.closure, hr, Nat.add_sub_cancel]
  refine Ends.bind (free_ends ?_)
  rcases h.this with hbo | ⟨hbo, hth⟩
  · rw [hbo]
    refine Ends.bind (Ends.bind (ends_modify (ends_pure ?_)))
    exact hre _ h.refcount rfl h.inFlight h.tables hop
  · rw [hbo]
    refine Ends.bind (ends_pure ?_)
    exact hre _ h.refcount hth h.inFlight h.tables hop

def permitFree (w : World) (s : Dispatcher) : Bool :=
  w.inFlightLimit.all fun limit => s.inFlight < limit

def withPermitTaken (w : World) (s : Dispatcher) : Dispatcher :=
  match w.inFlightLimit with
  | none => s
  | some _ => { s with inFlight := s.inFlight + 1 }

theorem asyncInflightTryAcquire_ends (s : Dispatcher) (E : Unit → Dispatcher → Prop) :
    Ends (asyncInflightTryAcquire w) s (fun acquired s' => acquired = permitFree w s ∧
        s' = if acquired then withPermitTaken w s else s) E := by
  unfold asyncInflightTryAcquire permitFree withPermitTaken
  cases w.inFlightLimit with
  | none => exact ends_pure ⟨rfl, rfl⟩
  | some limit =>
    refine Ends.bind ?_
    change Ends (if limit ≤ s.inFlight then _ else _) s _ E
    split
    · next hf => exact ends_pure ⟨(decide_eq_false (Nat.not_lt.mpr hf)).symm, rfl⟩
    · next hfr => exact ⟨(decide_eq_true (Nat.not_le.mp hfr)).symm, rfl⟩

theorem withPermit_ends {α : Type} {x : DispatchM α} {Q : α → Dispatcher → Prop}
    (h : Ends x s Q fun e s' => E e (asyncInflightRelease w s')) :
    Ends (withPermit w x) s Q E := by
  have hp : (withPermit w x).run s =
      match x.run s with
      | .ok a s' => .ok a s'
      | .error e s' => .error e (asyncInflightRelease w s') := rfl
  unfold Ends at h ⊢
  rw [hp]
  cases hrun : x.run s with
  | ok a s' | error e s' =>
    rw [hrun] at h
    exact h

theorem Untouched.of_withPermitTaken (h : Untouched (withPermitTaken w s) s') :
    Untouched s (asyncInflightRelease w s') := by
  unfold withPermitTaken at h
  unfold asyncInflightRelease
  cases hl : w.inFlightLimit with
  | none =>
    rw [hl] at h
    exact h
  | some limit =>
    rw [hl] at h
    refine ⟨h.refcount, h.this, ?_, h.tables, h.buffers⟩
    change s'.inFlight - 1 = s.inFlight
    rw [h.inFlight, Nat.add_sub_cancel]

@[simp] theorem refcount_withPermitTaken : (withPermitTaken w s).refcount = s.refcount := by
  unfold withPermitTaken
  split
  · rfl
  · rfl

@[simp] theorem refcount_asyncInflightRelease :
    (asyncInflightRelease w s).refcount = s.refcount := by
  unfold asyncInflightRelease
  split
  · rfl
  · rfl

/-- The dispatch fails after the closure's reference was taken and before the
task was offered to the queue. -/
def failsHalfway (w : World) (s : Dispatcher) (closure : Closure) (args : List Zval) : Bool :=
  w.queue.isSome && permitFree w s && !crosses w closure args

theorem asyncDispatchCallback_ends (s : Dispatcher) :
    Ends (asyncDispatchCallback w closure args) s (fun _ _ => True) fun _ s' =>
      if failsHalfway w s closure args then s'.refcount = s.refcount + 1 else Untouched s s' := by
  unfold asyncDispatchCallback failsHalfway
  cases w.queue with
  | none => exact ends_throw ⟨rfl, rfl, rfl, rfl, rfl⟩
  | some queue =>
    refine Ends.bind ((asyncInflightTryAcquire_ends s _).imp ?_ fun _ _ h => h)
    rintro acquired s₀ ⟨ha, rfl⟩
    rw [← ha]
    cases acquired with
    | false => exact Ends.bind (ends_modify (ends_throw ⟨rfl, rfl, rfl, rfl, rfl⟩))
    | true =>
      refine withPermit_ends (Ends.bind ((buildTask_ends _).imp ?_ ?_))
      · rintro ⟨task, cleanup⟩ s₁ ⟨hc, hh⟩
        rw [hc]
        refine Ends.bind ?_
        change Ends (if queue.connected && s₁.queue.length < queue.capacity then _ else _) s₁ _ _
        split
        · exact trivial
        · refine Ends.bind ((rollback_ends hh _).imp ?_ fun _ _ h => h)
          intro _ s₂ hu
          exact ends_throw hu.of_withPermitTaken
      · rintro _ s₁ ⟨hc, hr⟩
        rw [hc]
        change (asyncInflightRelease w s₁).refcount = s.refcount + 1
        rw [refcount_asyncInflightRelease, hr, if_pos rfl, refcount_withPermitTaken]

theorem handlerAsync_error {call : Call} {e : Bytes}
    (h : (handlerAsync w call).run s = .error e s') : s' = s ∧ checkCall w call = .error e ∨
      ∃ closure, checkCall w call = .ok closure ∧
        (asyncDispatchCallback w closure call.args).run s = .error () s' := by
  unfold handlerAsync at h
  rw [run_check_bind] at h
  cases hc : checkCall w call with
  | error e₀ =>
    rw [hc] at h
    cases h
    exact .inl ⟨rfl, rfl⟩
  | ok closure =>
    rw [hc] at h
    dsimp only at h
    rw [run_adaptExcept] at h
    split at h
    · cases h
    · next hrun =>
      cases h
      exact .inr ⟨closure, rfl, hrun⟩

/-- The call passed the handler's checks and its dispatch fails halfway. -/
def leaks (w : World) (s : Dispatcher) (call : Call) : Bool :=
  match checkCall w call with
  | .ok closure => failsHalfway w s closure call.args
  | .error _ => false

/-- **A refused call leaves nothing behind, unless its dispatch fails halfway**: of
the failures, the ones between the permit and the queue are not rolled back. -/
theorem refused_untouched_iff (w : World) (call : Call) (s : Dispatcher) (e : Bytes)
    (s' : Dispatcher) (hrefused : (handlerAsync w call).run s = .error e s') :
    Untouched s s' ↔ leaks w s call = false := by
  unfold leaks
  rcases handlerAsync_error hrefused with ⟨rfl, hc⟩ | ⟨closure, hc, hrun⟩
  · rw [hc]
    exact iff_of_true ⟨rfl, rfl, rfl, rfl, rfl⟩ rfl
  · rw [hc]
    have he := (asyncDispatchCallback_ends s).error hrun
    dsimp only
    split at he
    · next hh =>
      rw [hh]
      refine iff_of_false (fun h => ?_) (by simp)
      have hr := h.refcount
      omega
    · next hh => exact iff_of_true he (Bool.eq_false_iff.mpr hh)

end Spec

/-! A request with one reference to its closure, which is bound to `$this` and
captures a variable. -/

def idle : Dispatcher := ⟨1, ⟨7, 0x308, 0⟩, 0, [], 0, .empty, [], 0, 0⟩

def boundClosure : Closure := ⟨[1, 2, 3], some [(.string [120], .long 5)], true, false⟩

def poolOf (capacity : Nat) : World :=
  ⟨true, some ⟨capacity, true⟩, some 4, 0, some 9, false, fun _ => false, true, true, true⟩

theorem refused_untouched_iff_queueFull :
    ∃ e s', (handlerAsync (poolOf 0) ⟨some boundClosure, [.long 6]⟩).run idle = .error e s' ∧
      (Untouched idle s' ↔ leaks (poolOf 0) idle ⟨some boundClosure, [.long 6]⟩ = false) ∧
      leaks (poolOf 0) idle ⟨some boundClosure, [.long 6]⟩ = false :=
  ⟨_, _, rfl, refused_untouched_iff (poolOf 0) ⟨some boundClosure, [.long 6]⟩ idle _ _ rfl, rfl⟩

/-- An object inside an argument passes the handler's check and cannot be
written: the closure keeps a reference, `$this` is the proxy from here on and the
buffer of the captures is never freed. -/
theorem object_in_argument_leaks : ∃ e s',
      (handlerAsync (poolOf 8)
        ⟨some boundClosure, [.array [(.index 0, .object 3 none)]]⟩).run idle = .error e s' ∧
      s'.refcount = 2 ∧ s'.this = ⟨9, 0x308, 0⟩ ∧ s'.buffers.length = 1 ∧ s'.inFlight = 0 ∧
      ¬Untouched idle s' :=
  ⟨_, _, rfl, rfl, rfl, rfl, rfl, fun h => absurd h.refcount (by decide)⟩

end OxPhp.Async
