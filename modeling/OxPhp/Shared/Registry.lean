import OxPhp.Shared.Channel.Sequential
import OxPhp.Shared.Containers
import OxPhp.Shared.Cycle

/-!
# The registry of shared entries

The entries of `plugins/ox_shared/registry.rs` with the operations that store
values into them, one operation at a time.  An entry lives while something
holds it; another entry that stores a reference to it does.  Which of these
references the cycle walker sees is up to each type's `children`.
-/

namespace OxPhp.Shared

open ByteStr OxPhp.Async

/-- What an entry holds. Counters, flags, atomics and pools hold no shared
values. -/
inductive Inner where
  | scalar (typeTag : SharedType)
  | once (o : OnceInner)
  | mutex (m : MutexInner)
  | channel (c : ChannelInner)
  | map (m : MapInner)

def distinctIds (seen : List SharedId) : List SharedRef → List SharedRef
  | [] => []
  | r :: rest =>
    if r.id ∈ seen then distinctIds seen rest else r :: distinctIds (r.id :: seen) rest

namespace Inner

/-- The references an entry holds, and so keeps alive. -/
def refs : Inner → List SharedRef
  | scalar _ => []
  | once o =>
    match o.state with
    | .ready v => collectSharedRefs v
    | _ => []
  | mutex m => collectSharedRefs m.state
  | channel c => c.heldRefs
  | map m => m.values.flatMap collectSharedRefs

/-- The references an entry reports to the cycle walker. -/
def children : Inner → List SharedRef
  | channel c => distinctIds [] c.inFlight
  | map m => m.values.flatMap collectSharedRefs
  | _ => []

def isCell : Inner → Bool
  | once _ => true
  | mutex _ => true
  | _ => false

end Inner

structure SharedConfig where
  cycleDetectDepth : Nat
  cycleDetectEdges : Nat

structure Registry where
  config : SharedConfig
  nextId : SharedId
  entries : SharedId → Option Inner
  senders : ChannelSenders

namespace Registry

def empty (config : SharedConfig) (seed : SharedId) : Registry where
  config := config
  nextId := seed
  entries := fun _ => none
  senders := .empty

variable (reg : Registry)

def insert (inner : Inner) : Registry :=
  { reg with
    nextId := reg.nextId + 1
    entries := Function.update reg.entries reg.nextId (some inner) }

def put (id : SharedId) (inner : Inner) : Registry :=
  { reg with entries := Function.update reg.entries id (some inner) }

def childrenOf (id : SharedId) : List SharedRef :=
  match reg.entries id with
  | some inner => inner.children
  | none => []

def isReferenced (id : SharedId) : Bool :=
  (List.range reg.nextId).any fun holder =>
    ((reg.entries holder).map Inner.refs).any fun refs => refs.any fun r => r.id == id

/-! ## Cycle checks -/

def limitMessage (subject : Bytes) (limit : Nat) (setting : Bytes) : Bytes :=
  subject ++ str " limit (" ++ str (toString limit) ++ str ") exceeded; raise " ++ setting ++
    str " or break the graph"

def cycleMessage (subject : Bytes) (found : List SharedId → Bytes) : CycleError → Bytes
  | .cycleFound path => found path
  | .depthExceeded =>
    limitMessage (subject ++ str "cycle detection depth") reg.config.cycleDetectDepth
      (str "SHARED_CYCLE_DETECT_DEPTH")
  | .edgeLimitExceeded =>
    limitMessage (subject ++ str "cycle detection edge") reg.config.cycleDetectEdges
      (str "SHARED_CYCLE_DETECT_EDGES")

/-- Run the walker from every root towards `selfId`. -/
def checkCycles (message : CycleError → Bytes) (selfId : SharedId) :
    List SharedRef → Except Failure Unit
  | [] => .ok ()
  | root :: rest =>
    match wouldCreateCycle reg.childrenOf root.id selfId reg.config.cycleDetectDepth
      reg.config.cycleDetectEdges with
    | .ok _ => checkCycles message selfId rest
    | .error e => .error { error := .cycle, message := message e }

def mapCheck (selfId : SharedId) (roots : List SharedRef) : Except Failure Unit :=
  reg.checkCycles (reg.cycleMessage [] fun path =>
    str "cycle would form: " ++ formatCyclePath path ++ str " (inserting into #" ++
      str (toString selfId) ++ str ")") selfId roots

def channelCheck (selfId : SharedId) (roots : List SharedRef) : Except Failure Unit :=
  reg.checkCycles (reg.cycleMessage (str "Shared\\Channel: ") fun path =>
    str "Shared\\Channel: send would form a reference cycle: " ++ formatCyclePath path) selfId roots

/-! ## Operations -/

def staleHandle : Failure := ⟨.staleHandle, []⟩

def decode (v : SharedValue) : Except Failure SharedValue :=
  if (collectSharedRefs v).all fun r => (reg.entries r.id).isSome then .ok v
  else .error staleHandle

/-- A payload that keeps the entries its bytes refer to alive. -/
def buildPayload (scan : Bytes → Option (List SharedRef)) (selfId : SharedId) (bytes : Bytes) :
    Except Failure Payload :=
  match scan bytes with
  | none => .ok { bytes, keepalive := [] }
  | some roots =>
    match reg.channelCheck selfId roots with
    | .error e => .error e
    | .ok _ =>
      .ok { bytes, keepalive := roots.filter fun r => (reg.entries r.id).isSome }

/-- The operations on shared entries; each takes the entry's id. -/
inductive Op where
  | createScalar (typeTag : SharedType)
  | createOnce (failureMode : OnceFailureMode)
  | createMutex (initial : SharedValue)
  | createChannel (capacity : Nat)
  | createMap (maxEntries : Option Nat)
  | mapSet (id : SharedId) (key : MapKey) (value : SharedValue)
  | mapSwap (id : SharedId) (key : MapKey) (value : SharedValue)
  | mapSetIfAbsent (id : SharedId) (key : MapKey) (value : SharedValue)
  | mapCompareAndSet (id : SharedId) (key : MapKey) (expected new : Option SharedValue)
  | mapSetMany (id : SharedId) (batch : List (MapKey × SharedValue))
  | mapPop (id : SharedId) (key : MapKey)
  | mapClear (id : SharedId)
  | channelSend (id : SharedId) (bytes : Bytes)
  | channelRecv (id : SharedId)
  | channelClose (id : SharedId)
  | channelParkRecv (id : SharedId)
  | channelParkSend (id : SharedId)
  | cancelPromise (promise : PromiseId)
  | dropReceiver (promise : PromiseId)
  | onceTrySet (id : SharedId) (value : SharedValue)
  | onceGetOrInit (id : SharedId) (factory : Except OnceFactoryError SharedValue)
  | mutexWithLock (id : SharedId) (invoke : Invoke)
  | drop (id : SharedId)

def onMap (id : SharedId) (f : MapInner → Except Failure MapInner) :
    Except Failure Unit × Registry :=
  match reg.entries id with
  | some (.map m) =>
    match f m with
    | .ok m' => (.ok (), reg.put id (.map m'))
    | .error e => (.error e, reg)
  | some _ => (.error ⟨.type, []⟩, reg)
  | none => (.error staleHandle, reg)

def onChannel (id : SharedId)
    (f : ChannelInner → ChannelSenders → Except Failure Unit × ChannelInner × ChannelSenders) :
    Except Failure Unit × Registry :=
  match reg.entries id with
  | some (.channel c) =>
    ((f c reg.senders).1,
      { reg.put id (.channel (f c reg.senders).2.1) with senders := (f c reg.senders).2.2 })
  | some _ => (.error ⟨.type, []⟩, reg)
  | none => (.error staleHandle, reg)

def onOnce (id : SharedId) (f : OnceInner → Except Failure Unit × OnceInner) :
    Except Failure Unit × Registry :=
  match reg.entries id with
  | some (.once o) => ((f o).1, reg.put id (.once (f o).2))
  | some _ => (.error ⟨.type, []⟩, reg)
  | none => (.error staleHandle, reg)

def onMutex (id : SharedId) (f : MutexInner → Except Failure Unit × MutexInner) :
    Except Failure Unit × Registry :=
  match reg.entries id with
  | some (.mutex m) => ((f m).1, reg.put id (.mutex (f m).2))
  | some _ => (.error ⟨.type, []⟩, reg)
  | none => (.error staleHandle, reg)

def sendAnswer : ChannelInner.TrySend → Except Failure Unit
  | .sent => .ok ()
  | .full => .error ⟨.timeout, []⟩
  | .closed => .error ⟨.closed, []⟩

/-- An answer without the value it carries. -/
def unitAnswer {α : Type} : Except SharedError α → Except Failure Unit
  | .ok _ => .ok ()
  | .error e => .error ⟨e, []⟩

/-- Let go of an entry nothing holds any more. -/
def dropEntry (id : SharedId) : Registry :=
  if reg.isReferenced id then reg
  else
    match reg.entries id with
    | some (.channel c) =>
      { reg with
        entries := Function.update reg.entries id none
        senders := (c.close reg.senders).2.2 }
    | _ => { reg with entries := Function.update reg.entries id none }

def exec (scan : Bytes → Option (List SharedRef)) (reg : Registry) :
    Op → Except Failure Unit × Registry
  | .createScalar typeTag => (.ok (), reg.insert (.scalar typeTag))
  | .createOnce failureMode => (.ok (), reg.insert (.once (.new failureMode)))
  | .createMutex initial =>
    match reg.decode initial with
    | .ok v => (.ok (), reg.insert (.mutex { state := v, corrupted := false }))
    | .error e => (.error e, reg)
  | .createChannel capacity => (.ok (), reg.insert (.channel (.new capacity)))
  | .createMap maxEntries => (.ok (), reg.insert (.map (.new maxEntries)))
  | .mapSet id key value => reg.onMap id fun m => do
    let v ← reg.decode value
    return (← m.set (reg.mapCheck id) key v).2
  | .mapSwap id key value => reg.onMap id fun m => do
    let v ← reg.decode value
    return (← m.swap (reg.mapCheck id) key v).2
  | .mapSetIfAbsent id key value => reg.onMap id fun m => do
    let v ← reg.decode value
    return (← m.setIfAbsent (reg.mapCheck id) key v).2
  | .mapCompareAndSet id key expected new => reg.onMap id fun m => do
    let expected ← expected.mapM reg.decode
    let new ← new.mapM reg.decode
    return (← m.compareAndSet (reg.mapCheck id) key expected new).2
  | .mapSetMany id batch =>
    match reg.entries id with
    | some (.map m) =>
      match batch.mapM fun kv => (reg.decode kv.2).map fun v => (kv.1, v) with
      | .ok batch =>
        let stored := m.setManyBatch (reg.mapCheck id) batch
        ((stored.1.mapError Prod.fst).map fun _ => (), reg.put id (.map stored.2))
      | .error e => (.error e, reg)
    | some _ => (.error ⟨.type, []⟩, reg)
    | none => (.error staleHandle, reg)
  | .mapPop id key => reg.onMap id fun m => .ok (m.pop key).2
  | .mapClear id => reg.onMap id fun m => .ok m.clear.2
  | .channelSend id bytes => reg.onChannel id fun c senders =>
    match reg.buildPayload scan id bytes with
    | .error e => (.error e, c, senders)
    | .ok p => (sendAnswer (c.trySend senders p).1, (c.trySend senders p).2)
  | .channelRecv id => reg.onChannel id fun c senders => (.ok (), (c.tryRecv senders).2)
  | .channelClose id => reg.onChannel id fun c senders => (.ok (), (c.close senders).2)
  | .channelParkRecv id => reg.onChannel id fun c senders =>
    (.ok (), c.registerRecvWaiter senders.alloc.2 senders.alloc.1)
  | .channelParkSend id => reg.onChannel id fun c senders =>
    (.ok (), c.registerSendWaiter senders.alloc.2 senders.alloc.1)
  | .cancelPromise promise => (.ok (), { reg with senders := (reg.senders.cancel promise).2 })
  | .dropReceiver promise => (.ok (), { reg with senders := reg.senders.dropReceiver promise })
  | .onceTrySet id value =>
    match reg.decode value with
    | .ok v => reg.onOnce id fun o => (unitAnswer (o.trySet v).1, (o.trySet v).2)
    | .error e => (.error e, reg)
  | .onceGetOrInit id factory => reg.onOnce id fun o =>
    -- a value that does not decode counts as one that is not serialisable
    let made := match factory with
      | .ok v => (reg.decode v).mapError fun _ => .notSerialisable
      | .error e => .error e
    (unitAnswer (o.getOrInit made).1, (o.getOrInit made).2)
  | .mutexWithLock id invoke => reg.onMutex id fun m => m.withLock reg.decode invoke
  | .drop id => (.ok (), reg.dropEntry id)

def run (scan : Bytes → Option (List SharedRef)) (reg : Registry) (ops : List Op) : Registry :=
  ops.foldl (fun reg op => (reg.exec scan op).2) reg

end Registry

end OxPhp.Shared
