import OxPhp.Lib.Interleave
import OxPhp.Lib.Runs
import OxPhp.Shared.Value

/-!
# Entries by name

`plugins/ox_shared/types/registry.rs`: get-or-create over the names index.  Each
access of the index and each settling of a gate is one atomic step.  The registry
is not shutting down.
-/

namespace OxPhp.Shared.Names

open ByteStr Interleave

abbrev ThreadId := Nat

abbrev GateId := Nat

structure CreateGate where
  settled : Bool
  result : Option SharedRef
  creator : ThreadId

inductive NameSlot where
  | creating (gate : GateId)
  | bound (arc : SharedRef)
  deriving DecidableEq

/-- The names index, and every gate ever opened. -/
structure Index where
  names : Bytes → Option NameSlot
  gates : GateId → CreateGate
  nextGate : GateId

/-- A call of `registry_get_or_create`. -/
structure Call where
  thread : ThreadId
  key : Bytes
  /-- The type of a typed method; `global()` takes any. -/
  want : Option SharedType
  /-- What its factory returns, should it run, unless it fails. -/
  factory : Option SharedRef
  deriving DecidableEq

inductive Outcome where
  | hit (arc : SharedRef)
  | typeMismatch
  | reentrant
  | deadlock
  | created (arc : SharedRef)
  /-- The creator's guard was dropped: the factory or `name_bind` failed. -/
  | failed
  deriving DecidableEq

inductive Pc where
  -- `name_acquire`
  | lookup
  | wait (gate : GateId)
  | vacant
  -- the creator's factory
  | factory (gate : GateId)
  -- `name_bind`
  | bind (gate : GateId) (arc : SharedRef)
  | settle (gate : GateId) (arc : SharedRef)
  -- `CreatingGuard::drop`, with `name_abort` first
  | abort (gate : GateId)
  | settleAborted (removed gate : GateId)
  | settleDropped (gate : GateId)
  deriving DecidableEq

namespace Index

def empty : Index where
  names := fun _ => none
  gates := fun _ => { settled := false, result := none, creator := 0 }
  nextGate := 0

variable (s : Index)

def setName (key : Bytes) (slot : Option NameSlot) : Index :=
  { s with names := Function.update s.names key slot }

def create (key : Bytes) (creator : ThreadId) : Index :=
  { names := Function.update s.names key (some (.creating s.nextGate))
    gates := Function.update s.gates s.nextGate ⟨false, none, creator⟩
    nextGate := s.nextGate + 1 }

def settle (gate : GateId) (result : Option SharedRef) : Index :=
  { s with gates := Function.update s.gates gate ⟨true, result, (s.gates gate).creator⟩ }

/-- The gate of the key, when the thread opened it. -/
def ownGate (key : Bytes) (thread : ThreadId) : Option GateId :=
  match s.names key with
  | some (.creating gate) => if (s.gates gate).creator = thread then some gate else none
  | _ => none

end Index

def wanted (want : Option SharedType) (arc : SharedRef) : Bool :=
  want.all fun tag => arc.typeTag = tag

def found (want : Option SharedType) (arc : SharedRef) : Outcome :=
  if wanted want arc then .hit arc else .typeMismatch

/-- One atomic step of a call; a wait on a gate that is not settled takes none. -/
def act (call : Call) (s : Index) : Pc → Option (Next Pc Outcome × Index)
  | .lookup =>
    match s.names call.key with
    | some (.bound arc) => some (.ret (found call.want arc), s)
    | some (.creating gate) =>
      if (s.gates gate).creator = call.thread then some (.ret .reentrant, s)
      else some (.go (.wait gate), s)
    | none => some (.go .vacant, s)
  | .wait gate =>
    if (s.gates gate).settled then
      match (s.gates gate).result with
      | some arc => some (.ret (found call.want arc), s)
      | none => some (.go .lookup, s)
    else none
  | .vacant =>
    match s.names call.key with
    | some _ => some (.go .lookup, s)
    | none => some (.go (.factory s.nextGate), s.create call.key call.thread)
  | .factory gate =>
    match call.factory with
    | some arc => some (.go (if wanted call.want arc then .bind gate arc else .abort gate), s)
    | none => some (.go (.abort gate), s)
  | .bind gate arc =>
    match s.ownGate call.key call.thread with
    | some own => some (.go (.settle own arc), s.setName call.key (some (.bound arc)))
    -- `ForeignCreator`, `AlreadyBound`, `NoCreatingSlot`
    | none => some (.go (.abort gate), s)
  | .settle gate arc => some (.ret (.created arc), s.settle gate (some arc))
  | .abort gate =>
    match s.ownGate call.key call.thread with
    | some own => some (.go (.settleAborted own gate), s.setName call.key none)
    | none => some (.go (.settleDropped gate), s)
  | .settleAborted removed gate => some (.go (.settleDropped gate), s.settle removed none)
  | .settleDropped gate => some (.ret .failed, s.settle gate none)

def Index.remove (s : Index) (key : Bytes) : Index :=
  match s.names key with
  | some (.bound _) => s.setName key none
  | _ => s

/-! ## Runs -/

inductive Op where
  | unborn
  | running (call : Call) (pc : Pc)
  | ended (call : Call) (outcome : Outcome)
  deriving DecidableEq

def Op.after (call : Call) : Next Pc Outcome → Op
  | .go pc => running call pc
  | .ret outcome => ended call outcome

structure System where
  index : Index
  ops : Nat → Op

def start : System where
  index := .empty
  ops := fun _ => .unborn

inductive Move where
  | call (i : Nat) (call : Call)
  | step (i : Nat)
  /-- The wait of a call has lasted `GATE_WAIT_TIMEOUT`. -/
  | timeOut (i : Nat)
  | remove (key : Bytes)
  deriving DecidableEq

def System.setOp (s : System) (i : Nat) (op : Op) : System :=
  { s with ops := Function.update s.ops i op }

def step : Move → System → Option System
  | .call i call, s =>
    match s.ops i with
    | .unborn => some (s.setOp i (.running call .lookup))
    | _ => none
  | .step i, s =>
    match s.ops i with
    | .running call pc => (act call s.index pc).map fun out =>
        System.setOp { s with index := out.2 } i (.after call out.1)
    | _ => none
  | .timeOut i, s =>
    match s.ops i with
    | .running call (.wait gate) =>
      if (s.index.gates gate).settled then none else some (s.setOp i (.ended call .deadlock))
    | _ => none
  | .remove key, s => some { s with index := s.index.remove key }

/-! ## What the runs are about -/

inductive Event where
  | bound (key : Bytes) (arc : SharedRef)
  | removed (key : Bytes)
  deriving DecidableEq

def Event.key : Event → Bytes
  | bound key _ => key
  | removed key => key

def Event.isBound : Event → Bool
  | bound _ _ => true
  | removed _ => false

/-- The bindings and removals a move makes. -/
def events : Move → System → List Event
  | .step i, s =>
    match s.ops i with
    | .running call (.bind _ arc) =>
      if (s.index.ownGate call.key call.thread).isSome then [.bound call.key arc] else []
    | _ => []
  | .remove key, s =>
    match s.index.names key with
    | some (.bound _) => [.removed key]
    | _ => []
  | _, _ => []

def history (key : Bytes) (moves : List Move) : List Event :=
  (Runs.log step events moves start).filter fun e => e.key = key

namespace Pc

/-- The gate whose guard the call holds. -/
def guards : Pc → Option GateId
  | factory gate => some gate
  | bind gate _ => some gate
  | settle gate _ => some gate
  | abort gate => some gate
  | settleAborted _ gate => some gate
  | settleDropped gate => some gate
  | _ => none

/-- The call is the creator: it has opened its gate and neither bound nor given
up yet. -/
def creates : Pc → Bool
  | factory _ => true
  | bind _ _ => true
  | abort _ => true
  | _ => false

end Pc

def System.IsCreator (s : System) (i : Nat) (key : Bytes) : Prop :=
  ∃ call pc, s.ops i = .running call pc ∧ call.key = key ∧ pc.creates = true

/-- At some moment of the run the call was in progress and the entry was bound
under its key. -/
def BoundDuring (moves : List Move) (i : Nat) (call : Call) (arc : SharedRef) : Prop :=
  ∃ before after s pc, moves = before ++ after ∧ Runs.run step before start = some s ∧
    s.ops i = .running call pc ∧ s.index.names call.key = some (.bound arc)

/-! ## Steps of a call -/

/-- What an atomic step of a call does. -/
inductive Acts (call : Call) (s : Index) : Pc → Next Pc Outcome → Index → Prop
  | found {arc : SharedRef} (slot : s.names call.key = some (.bound arc)) :
      Acts call s .lookup (.ret (found call.want arc)) s
  | reentrant : Acts call s .lookup (.ret .reentrant) s
  | waits {gate : GateId} (slot : s.names call.key = some (.creating gate)) :
      Acts call s .lookup (.go (.wait gate)) s
  | absent : Acts call s .lookup (.go .vacant) s
  | woken {gate : GateId} {arc : SharedRef} (settled : (s.gates gate).settled = true)
      (result : (s.gates gate).result = some arc) :
      Acts call s (.wait gate) (.ret (Names.found call.want arc)) s
  | again {gate : GateId} : Acts call s (.wait gate) (.go .lookup) s
  | lost : Acts call s .vacant (.go .lookup) s
  | opens (slot : s.names call.key = none) :
      Acts call s .vacant (.go (.factory s.nextGate)) (s.create call.key call.thread)
  | returns {gate : GateId} {arc : SharedRef} : Acts call s (.factory gate) (.go (.bind gate arc)) s
  | fails {gate : GateId} : Acts call s (.factory gate) (.go (.abort gate)) s
  | binds {gate own : GateId} {arc : SharedRef}
      (slot : s.ownGate call.key call.thread = some own) :
      Acts call s (.bind gate arc) (.go (.settle own arc)) (s.setName call.key (some (.bound arc)))
  | refused {gate : GateId} {arc : SharedRef}
      (slot : s.ownGate call.key call.thread = none) :
      Acts call s (.bind gate arc) (.go (.abort gate)) s
  | settles {gate : GateId} {arc : SharedRef} :
      Acts call s (.settle gate arc) (.ret (.created arc)) (s.settle gate (some arc))
  | removes {gate own : GateId} (slot : s.ownGate call.key call.thread = some own) :
      Acts call s (.abort gate) (.go (.settleAborted own gate)) (s.setName call.key none)
  | gone {gate : GateId} (slot : s.ownGate call.key call.thread = none) :
      Acts call s (.abort gate) (.go (.settleDropped gate)) s
  | settlesAborted {removed gate : GateId} :
      Acts call s (.settleAborted removed gate) (.go (.settleDropped gate)) (s.settle removed none)
  | settlesDropped {gate : GateId} :
      Acts call s (.settleDropped gate) (.ret .failed) (s.settle gate none)

theorem acts_of_act {call : Call} {s index : Index} {pc : Pc} {next : Next Pc Outcome}
    (h : act call s pc = some (next, index)) : Acts call s pc next index := by
  cases pc with
  | lookup =>
    simp only [act] at h
    split at h
    · next hs =>
      cases h
      exact .found hs
    · next hs =>
      split at h
      · cases h
        exact .reentrant
      · cases h
        exact .waits hs
    · cases h
      exact .absent
  | wait gate =>
    obtain ⟨hse, h⟩ := Option.ite_none_right_eq_some.mp h
    split at h
    · next hr =>
      cases h
      exact .woken hse hr
    · cases h
      exact .again
  | vacant =>
    simp only [act] at h
    split at h
    · cases h
      exact .lost
    · next hs =>
      cases h
      exact .opens hs
  | factory gate =>
    simp only [act] at h
    split at h
    · cases h
      split
      · exact .returns
      · exact .fails
    · cases h
      exact .fails
  | bind gate arc =>
    simp only [act] at h
    split at h
    · next hs =>
      cases h
      exact .binds hs
    · next hs =>
      cases h
      exact .refused hs
  | abort gate =>
    simp only [act] at h
    split at h
    · next hs =>
      cases h
      exact .removes hs
    · next hs =>
      cases h
      exact .gone hs
  | settle gate arc =>
    cases h
    exact .settles
  | settleAborted removed gate =>
    cases h
    exact .settlesAborted
  | settleDropped gate =>
    cases h
    exact .settlesDropped

theorem Index.names_of_ownGate {s : Index} {key : Bytes} {thread : ThreadId} {gate : GateId}
    (h : s.ownGate key thread = some gate) : s.names key = some (.creating gate) := by
  unfold Index.ownGate at h
  split at h
  · next hs =>
    cases (Option.ite_none_right_eq_some.mp h).2
    exact hs
  · cases h

end OxPhp.Shared.Names
