import Mathlib.Data.List.AList
import OxPhp.Lib.Except
import OxPhp.Shared.Value

/-!
# Map, Once and Mutex

`types/map.rs`, `types/once.rs` and `types/mutex.rs` of `plugins/ox_shared` for
operations that run one at a time.  Each operation gives its answer and the
container it leaves.  A Map asks a cycle check before it stores; a Once and a
Mutex do not have one.
-/

namespace OxPhp.Shared

open ByteStr ExceptInv

/-! ## Map -/

/-- Integer and string keys are disjoint. -/
inductive MapKey where
  | int (n : Int64)
  | str (s : Bytes)
  deriving DecidableEq

structure MapInner where
  entries : AList fun _ : MapKey => SharedValue
  maxEntries : Option Nat

namespace MapInner

def new (maxEntries : Option Nat) : MapInner where
  entries := ∅
  maxEntries := maxEntries

variable (m : MapInner)

/-- The number of keys; the striped counters add up to it while no operation
runs. -/
def count : Nat := m.entries.keys.length

def values : List SharedValue := m.entries.entries.map Sigma.snd

/-- Null means absence and is never stored. -/
def rejectUnstorable : SharedValue → Except Failure Unit
  | .null => .error
    { error := .type
      message := str "Shared\\Map: null is not a storable value (null means absence; " ++
        str "use remove() / key absence instead)" }
  | _ => .ok ()

def capacityFailure (max : Nat) : Failure where
  error := .capacityExceeded
  message := str "Shared\\Map capacity exceeded: " ++ str (toString max) ++ str "/" ++
    str (toString max) ++ str " entries; raise \x60new Shared\\Map(maxEntries: ...)\x60 or " ++
      str "remove keys first"

def insert (key : MapKey) (value : SharedValue) : MapInner :=
  { m with entries := m.entries.insert key value }

def addNew (key : MapKey) (value : SharedValue) : Except Failure MapInner :=
  match m.maxEntries with
  | some max => if m.count ≥ max then .error (capacityFailure max) else .ok (m.insert key value)
  | none => .ok (m.insert key value)

/-- Insert or replace, and give the previous value. -/
def setWithoutCycleCheck (key : MapKey) (value : SharedValue) :
    Except Failure (Option SharedValue × MapInner) := do
  rejectUnstorable value
  match m.entries.lookup key with
  | some prev => return (some prev, m.insert key value)
  | none => return (none, ← m.addNew key value)

section Checked

variable (cycleCheck : List SharedRef → Except Failure Unit)

def set (key : MapKey) (value : SharedValue) : Except Failure (Option SharedValue × MapInner) := do
  rejectUnstorable value
  cycleCheck (collectSharedRefs value)
  m.setWithoutCycleCheck key value

def swap (key : MapKey) (value : SharedValue) : Except Failure (Option SharedValue × MapInner) :=
  m.set cycleCheck key value

def setIfAbsent (key : MapKey) (value : SharedValue) :
    Except Failure (Option SharedValue × MapInner) := do
  rejectUnstorable value
  cycleCheck (collectSharedRefs value)
  match m.entries.lookup key with
  | some prev => return (some prev, m)
  | none => return (none, ← m.addNew key value)

/-- The checks on a value that may be stored. -/
def checkNew : Option SharedValue → Except Failure Unit
  | some v => do
    rejectUnstorable v
    cycleCheck (collectSharedRefs v)
  | none => .ok ()

/-- Replace, insert or remove when the present value is the expected one;
`none` is absence on both sides. -/
def compareAndSet (key : MapKey) (expected new : Option SharedValue) :
    Except Failure (Bool × MapInner) := do
  checkNew cycleCheck new
  match m.entries.lookup key, expected with
  | some present, some e =>
    if svContentEq present e then
      match new with
      | some v => return (true, m.insert key v)
      | none => return (true, { m with entries := m.entries.erase key })
    else return (false, m)
  | some _, none => return (false, m)
  | none, some _ => return (false, m)
  | none, none =>
    match new with
    | some v => return (true, ← m.addNew key v)
    | none => return (true, m)

/-- Store the pairs one by one up to the first failure. -/
def setEach (m : MapInner) : Nat → List (MapKey × SharedValue) →
    Except (Failure × Nat) Nat × MapInner
  | inserted, [] => (.ok inserted, m)
  | inserted, (key, value) :: rest =>
    match m.setWithoutCycleCheck key value with
    | .ok (_, m') => setEach m' (inserted + 1) rest
    | .error e => (.error (e, inserted), m)

/-- Store a batch under one cycle check; what was stored before a failure
stays. -/
def setManyBatch (batch : List (MapKey × SharedValue)) :
    Except (Failure × Nat) Nat × MapInner :=
  match cycleCheck (batch.flatMap fun kv => collectSharedRefs kv.2) with
  | .error e => (.error (e, 0), m)
  | .ok _ => m.setEach 0 batch

end Checked

def pop (key : MapKey) : Option SharedValue × MapInner :=
  (m.entries.lookup key, { m with entries := m.entries.erase key })

def clear : Nat × MapInner := (m.count, { m with entries := ∅ })

/-! ### What a Map holds -/

section Values

variable {m} {m' : MapInner} {key : MapKey} {value v : SharedValue}
  {prev : Option SharedValue} {cycleCheck : List SharedRef → Except Failure Unit}

theorem mem_values_insert (h : v ∈ (m.insert key value).values) : v = value ∨ v ∈ m.values := by
  obtain ⟨e, he, rfl⟩ := List.mem_map.mp h
  rw [insert, AList.entries_insert] at he
  rcases List.mem_cons.mp he with rfl | he
  · exact .inl rfl
  · exact .inr (List.mem_map_of_mem ((List.kerase_sublist _ _).subset he))

theorem mem_values_erase (h : v ∈ { m with entries := m.entries.erase key }.values) :
    v ∈ m.values := by
  obtain ⟨e, he, rfl⟩ := List.mem_map.mp h
  exact List.mem_map_of_mem ((List.kerase_sublist _ _).subset he)

theorem addNew_values (h : m.addNew key value = .ok m') (hv : v ∈ m'.values) :
    v = value ∨ v ∈ m.values := by
  unfold addNew at h
  split at h
  · split at h
    · cases h
    · cases h
      exact mem_values_insert hv
  · cases h
    exact mem_values_insert hv

theorem setWithoutCycleCheck_values (h : m.setWithoutCycleCheck key value = .ok (prev, m'))
    (hv : v ∈ m'.values) : v = value ∨ v ∈ m.values := by
  unfold setWithoutCycleCheck at h
  obtain ⟨-, -, h⟩ := bind_eq_ok.mp h
  split at h
  · cases h
    exact mem_values_insert hv
  · obtain ⟨added, hadd, h⟩ := bind_eq_ok.mp h
    cases h
    exact addNew_values hadd hv

theorem set_eq_ok (h : m.set cycleCheck key value = .ok (prev, m')) :
    cycleCheck (collectSharedRefs value) = .ok () ∧ ∀ v ∈ m'.values, v = value ∨ v ∈ m.values := by
  unfold set at h
  obtain ⟨-, -, h⟩ := bind_eq_ok.mp h
  obtain ⟨_, hc, h⟩ := bind_eq_ok.mp h
  exact ⟨hc, fun v hv => setWithoutCycleCheck_values h hv⟩

theorem setIfAbsent_eq_ok (h : m.setIfAbsent cycleCheck key value = .ok (prev, m')) :
    cycleCheck (collectSharedRefs value) = .ok () ∧ ∀ v ∈ m'.values, v = value ∨ v ∈ m.values := by
  unfold setIfAbsent at h
  obtain ⟨-, -, h⟩ := bind_eq_ok.mp h
  obtain ⟨_, hc, h⟩ := bind_eq_ok.mp h
  refine ⟨hc, fun v hv => ?_⟩
  split at h
  · cases h
    exact .inr hv
  · obtain ⟨added, hadd, h⟩ := bind_eq_ok.mp h
    cases h
    exact addNew_values hadd hv

theorem compareAndSet_eq_ok {expected new : Option SharedValue} {swapped : Bool}
    (h : m.compareAndSet cycleCheck key expected new = .ok (swapped, m')) :
    (∀ v, new = some v → cycleCheck (collectSharedRefs v) = .ok ()) ∧
      ∀ v ∈ m'.values, new = some v ∨ v ∈ m.values := by
  unfold compareAndSet at h
  obtain ⟨_, hc, h⟩ := bind_eq_ok.mp h
  constructor
  · rintro v rfl
    obtain ⟨-, -, hc⟩ := bind_eq_ok.mp hc
    exact hc
  · intro v hv
    split at h
    · split at h
      · split at h
        · cases h
          exact (mem_values_insert hv).imp_left fun heq => by rw [heq]
        · cases h
          exact .inr (mem_values_erase hv)
      · cases h
        exact .inr hv
    · cases h
      exact .inr hv
    · cases h
      exact .inr hv
    · split at h
      · obtain ⟨added, hadd, h⟩ := bind_eq_ok.mp h
        cases h
        exact (addNew_values hadd hv).imp_left fun heq => by rw [heq]
      · cases h
        exact .inr hv

theorem setEach_values {inserted : Nat} {batch : List (MapKey × SharedValue)}
    (hv : v ∈ (m.setEach inserted batch).2.values) : (∃ kv ∈ batch, v = kv.2) ∨ v ∈ m.values := by
  induction batch generalizing m inserted with
  | nil => exact .inr hv
  | cons kv batch ih =>
    unfold setEach at hv
    split at hv
    · next m' hset =>
      rcases ih hv with ⟨kv', hmem, rfl⟩ | hold
      · exact .inl ⟨kv', List.mem_cons_of_mem _ hmem, rfl⟩
      · exact (setWithoutCycleCheck_values hset hold).imp_left
          fun heq => ⟨kv, List.mem_cons_self, heq⟩
    · exact .inr hv

theorem setManyBatch_values {batch : List (MapKey × SharedValue)}
    (hc : cycleCheck (batch.flatMap fun kv => collectSharedRefs kv.2) = .ok ())
    (hv : v ∈ (m.setManyBatch cycleCheck batch).2.values) :
    (∃ kv ∈ batch, v = kv.2) ∨ v ∈ m.values := by
  unfold setManyBatch at hv
  rw [hc] at hv
  exact setEach_values hv

end Values

end MapInner

/-! ## Once -/

inductive OnceFailureMode where
  | reset
  | poison
  deriving DecidableEq

structure PoisonInfo where
  className : Bytes
  message : Bytes
  code : Int64
  deriving DecidableEq

/-- The states between operations; `pending` is left before one ends. -/
inductive OnceState where
  | uninit
  | ready (value : SharedValue)
  | poisoned (info : PoisonInfo)

structure OnceInner where
  state : OnceState
  failureMode : OnceFailureMode

inductive OnceFactoryError where
  | threw (info : PoisonInfo)
  | invalid
  | notSerialisable
  | bailout

namespace OnceInner

def new (failureMode : OnceFailureMode) : OnceInner where
  state := .uninit
  failureMode := failureMode

variable (o : OnceInner)

def trySet (v : SharedValue) : Except SharedError Bool × OnceInner :=
  match o.state with
  | .poisoned _ => (.error .poisoned, o)
  | .ready _ => (.ok false, o)
  | .uninit => (.ok true, { o with state := .ready v })

/-- The cell after a failed factory: retryable, or poisoned for good. -/
def fail (info : PoisonInfo) : OnceInner :=
  match o.failureMode with
  | .reset => o
  | .poison => { o with state := .poisoned info }

def notSerialisableInfo : PoisonInfo where
  className := str "OxPHP\\Shared\\TypeException"
  message := str "factory returned a non-serialisable value " ++
    str "(closure / resource / non-Shareable object)"
  code := 0

/-- The value, from the factory where there is none yet. -/
def getOrInit (factory : Except OnceFactoryError SharedValue) :
    Except SharedError SharedValue × OnceInner :=
  match o.state with
  | .ready v => (.ok v, o)
  | .poisoned _ => (.error .poisoned, o)
  | .uninit =>
    match factory with
    | .ok v => (.ok v, { o with state := .ready v })
    | .error (.threw info) => (.error .generic, o.fail info)
    | .error .notSerialisable => (.error .type, o.fail notSerialisableInfo)
    | .error .invalid => (.error .type, o)
    | .error .bailout => (.error .generic, o)

theorem getOrInit_state {factory : Except OnceFactoryError SharedValue} {v : SharedValue}
    (h : (o.getOrInit factory).2.state = .ready v) : o.state = .ready v ∨ factory = .ok v := by
  have hf : ∀ info, (o.fail info).state = .ready v → o.state = .ready v := by
    intro info hin
    unfold fail at hin
    split at hin
    · exact hin
    · cases hin
  unfold getOrInit at h
  split at h
  · exact .inl h
  · exact .inl h
  · split at h
    · cases h
      exact .inr rfl
    · exact .inl (hf _ h)
    · exact .inl (hf _ h)
    · exact .inl h
    · exact .inl h

theorem trySet_state {value v : SharedValue} (h : (o.trySet value).2.state = .ready v) :
    o.state = .ready v ∨ value = v := by
  unfold trySet at h
  split at h
  · exact .inl h
  · exact .inl h
  · cases h
    exact .inr rfl

end OnceInner

/-! ## Mutex -/

structure MutexInner where
  state : SharedValue
  corrupted : Bool

/-- How the closure under the lock ends, with the state it leaves where there is
one to store. -/
inductive Invoke where
  | ok (newState : Option SharedValue)
  | threw (newState : Option SharedValue)
  | badReturn (newState : Option SharedValue)
  | bailout
  | notCallable
  | panicked

def Invoke.newState : Invoke → Option SharedValue
  | ok newState => newState
  | threw newState => newState
  | badReturn newState => newState
  | _ => none

namespace MutexInner

variable (m : MutexInner)

/-- Store a new state that decodes. -/
def apply (decode : SharedValue → Except Failure SharedValue) (newState : Option SharedValue) :
    MutexInner :=
  match newState.map decode with
  | some (.ok v) => { m with state := v }
  | _ => m

/-- Run a closure under the lock. A state it left is kept even when it threw. -/
def withLock (decode : SharedValue → Except Failure SharedValue) (invoke : Invoke) :
    Except Failure Unit × MutexInner :=
  if m.corrupted then (.error ⟨.panicked, str "mutex corrupted by prior Rust panic"⟩, m)
  else
    match invoke with
    | .panicked =>
      (.error ⟨.panicked, str "Rust panic inside Mutex::with closure invocation"⟩,
        { m with corrupted := true })
    | .ok newState =>
      match newState.map decode with
      | some (.ok v) => (.ok (), { m with state := v })
      | some (.error e) => (.error e, m)
      | none => (.ok (), m)
    | .threw newState => (.error ⟨.generic, str "closure threw"⟩, m.apply decode newState)
    | .bailout =>
      (.error ⟨.generic, str "Mutex::withLock: closure ended by a bailout"⟩, m)
    | .badReturn newState =>
      (.error ⟨.type, str "Mutex::with: closure returned or assigned a non-serialisable value " ++
        str "(closure, resource, non-Shareable object)"⟩, m.apply decode newState)
    | .notCallable => (.error ⟨.type, str "Mutex::with: arg is not a valid callable"⟩, m)

variable {decode : SharedValue → Except Failure SharedValue}

theorem apply_state {newState : Option SharedValue} : (m.apply decode newState).state = m.state ∨
      ∃ v, newState = some v ∧ decode v = .ok (m.apply decode newState).state := by
  unfold apply
  split
  · next v hd =>
    obtain ⟨v', rfl, hv'⟩ := Option.map_eq_some_iff.mp hd
    exact .inr ⟨v', rfl, hv'⟩
  · exact .inl rfl

theorem withLock_state {invoke : Invoke} : (m.withLock decode invoke).2.state = m.state ∨
      ∃ v, invoke.newState = some v ∧ decode v = .ok (m.withLock decode invoke).2.state := by
  unfold withLock
  split
  · exact .inl rfl
  · cases invoke with
    | ok newState =>
      dsimp only [Invoke.newState]
      split
      · next v hd =>
        obtain ⟨v', rfl, hv'⟩ := Option.map_eq_some_iff.mp hd
        exact .inr ⟨v', rfl, hv'⟩
      · exact .inl rfl
      · exact .inl rfl
    | threw newState | badReturn newState => exact m.apply_state
    | bailout | notCallable | panicked => exact .inl rfl

end MutexInner

end OxPhp.Shared
