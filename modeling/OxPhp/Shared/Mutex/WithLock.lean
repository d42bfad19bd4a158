import OxPhp.Shared.Portbuf
import OxPhp.Shared.Registry

/-!
# withLock and tryWithLock

The two entry points of `plugins/ox_shared/types/mutex.rs` that run a closure
under the lock, on a Mutex that no other thread holds.  They are written twice and
differ in what they do about a state that does not decode.
-/

namespace OxPhp.Shared

open ByteStr

namespace Registry

def decodeBytes (reg : Registry) (bytes : Bytes) : Except SharedError SharedValue := do
  let raw ← portbufToSv bytes
  (reg.decode raw).mapError Failure.error

end Registry

/-- `tryWithLock` on a free Mutex: where the closure returned, a state that does
not decode is dropped without a word. -/
def MutexInner.tryWithLock (m : MutexInner) (decode : SharedValue → Except Failure SharedValue)
    (invoke : Invoke) : Except Failure Unit × MutexInner :=
  if m.corrupted then (.error ⟨.panicked, str "mutex corrupted by prior Rust panic"⟩, m)
  else
    match invoke with
    | .panicked =>
      (.error ⟨.panicked, str "Rust panic inside Mutex::tryWithLock closure invocation"⟩,
        { m with corrupted := true })
    | .ok newState => (.ok (), m.apply decode newState)
    | .threw newState => (.error ⟨.generic, str "closure threw"⟩, m.apply decode newState)
    | .bailout => (.error ⟨.generic, str "Mutex::tryWithLock: closure ended by a bailout"⟩, m)
    | .badReturn newState =>
      (.error ⟨.type, str "Mutex::tryWithLock: closure returned or assigned a " ++
        str "non-serialisable value (closure, resource, non-Shareable object)"⟩,
        m.apply decode newState)
    | .notCallable => (.error ⟨.type, str "Mutex::tryWithLock: arg is not a valid callable"⟩, m)

namespace MutexLock

/-- What the calling thread brings along: the Mutexes it holds, and whether the
detector has asked it to break a cycle. -/
structure Thread where
  held : List SharedId
  breakSignal : Bool

inductive InvokeRc where
  | ok
  | phpThrew
  | bailout
  | badReturn
  | badCallable

/-- What the C side hands back; a null buffer is an empty one. -/
structure Invoked where
  rc : InvokeRc
  newState : Bytes
  ret : Bytes
  didMutate : Bool

/-- What a call leaves behind: its answer with the buffer of the closure's
result, the Mutex, and whether the operation was counted. -/
structure Locked where
  answer : Except Failure Bytes
  inner : MutexInner
  recorded : Bool

def refused (e : SharedError) (message : Bytes) (m : MutexInner) : Locked :=
  ⟨.error ⟨e, message⟩, m, false⟩

/-- `push_held` on a Mutex the thread already holds. -/
def recursiveAcquire (id : SharedId) : Bytes :=
  str "recursive Mutex acquire on id=" ++ str (toString id) ++
    str " from a thread already holding it"

def corruptedMessage : Bytes := str "mutex corrupted by prior Rust panic"

def notSerialisable (method : Bytes) : Bytes :=
  method ++ str ": closure returned or assigned a non-serialisable value " ++
    str "(closure, resource, non-Shareable object)"

/-- Keep a state that decodes, whatever else went wrong. -/
def applyPartial (reg : Registry) (m : MutexInner) (newState : Bytes) : MutexInner :=
  if newState = [] then m
  else
    match reg.decodeBytes newState with
    | .ok v => { m with state := v }
    | .error _ => m

/-- `oxphp_shared_mutex_with` under the lock.  `invoke` is how the closure went,
nothing for a Rust panic in it. -/
def mutexWithClosure (reg : Registry) (m : MutexInner) : Option Invoked → Locked
  | none =>
    refused .panicked (str "Rust panic inside Mutex::with closure invocation")
      { m with corrupted := true }
  | some i =>
    match i.rc with
    | .ok =>
      if i.didMutate ∧ i.newState ≠ [] then
        match reg.decodeBytes i.newState with
        | .ok v => ⟨.ok i.ret, { m with state := v }, true⟩
        | .error e => refused e [] m
      else ⟨.ok i.ret, m, true⟩
    | .phpThrew =>
      ⟨.error ⟨.generic, str "closure threw"⟩, applyPartial reg m i.newState, true⟩
    | .bailout => refused .generic (str "Mutex::withLock: closure ended by a bailout") m
    | .badReturn =>
      refused .type (notSerialisable (str "Mutex::with")) (applyPartial reg m i.newState)
    | .badCallable => refused .type (str "Mutex::with: arg is not a valid callable") m

def mutexWith (reg : Registry) (id : SharedId) (thread : Thread) (m : MutexInner)
    (invoke : Option Invoked) : Locked :=
  if m.corrupted then refused .panicked corruptedMessage m
  else if id ∈ thread.held then refused .deadlock (recursiveAcquire id) m
  else if thread.breakSignal then
    refused .deadlock (str "Mutex::with: detected wait-for cycle; breaking") m
  else mutexWithClosure reg m invoke

def mutexTryWithClosure (reg : Registry) (m : MutexInner) : Option Invoked → Locked
  | none =>
    refused .panicked (str "Rust panic inside Mutex::tryWithLock closure invocation")
      { m with corrupted := true }
  | some i =>
    match i.rc with
    -- a state that does not decode is dropped without a word
    | .ok => ⟨.ok i.ret, if i.didMutate then applyPartial reg m i.newState else m, true⟩
    | .phpThrew =>
      ⟨.error ⟨.generic, str "closure threw"⟩, applyPartial reg m i.newState, true⟩
    | .bailout => refused .generic (str "Mutex::tryWithLock: closure ended by a bailout") m
    | .badReturn =>
      refused .type (notSerialisable (str "Mutex::tryWithLock")) (applyPartial reg m i.newState)
    | .badCallable => refused .type (str "Mutex::tryWithLock: arg is not a valid callable") m

def mutexTryWith (reg : Registry) (id : SharedId) (thread : Thread) (m : MutexInner)
    (invoke : Option Invoked) : Locked :=
  if m.corrupted then refused .panicked corruptedMessage m
  else if id ∈ thread.held then refused .deadlock (recursiveAcquire id) m
  else mutexTryWithClosure reg m invoke

/-! ## As one operation of the registry -/

/-- The state the closure left, where there is one and its bytes are a value. -/
def Invoked.state (i : Invoked) : Option SharedValue :=
  if i.newState = [] then none else (portbufToSv i.newState).toOption

/-- How the closure went, as `MutexInner` reads it. -/
def outcome : Option Invoked → Invoke
  | none => .panicked
  | some i =>
    match i.rc with
    | .ok => .ok (if i.didMutate then i.state else none)
    | .phpThrew => .threw i.state
    | .bailout => .bailout
    | .badReturn => .badReturn i.state
    | .badCallable => .notCallable

/-! ## The PHP methods -/

/-- What PHP code sees: a value, the exception the closure threw, or one of the
extension's. -/
inductive PhpOutcome where
  | value (v : SharedValue)
  | custom (text : Bytes)
  | exception (className message : Bytes)

def exceptionClass : SharedError → Bytes
  | .staleHandle => str "OxPHP\\Shared\\StaleHandleException"
  | .type => str "OxPHP\\Shared\\TypeException"
  | .capacityExceeded => str "OxPHP\\Shared\\CapacityException"
  | .timeout => str "OxPHP\\Shared\\OperationTimeoutException"
  | .deadlock => str "OxPHP\\Shared\\DeadlockException"
  | .uninitialized => str "OxPHP\\Shared\\UninitializedException"
  | .cancelled => str "OxPHP\\Async\\AsyncException"
  | .panicked => str "OxPHP\\Shared\\CorruptedMutexException"
  | _ => str "OxPHP\\Shared\\SharedException"

def mutexRcToPhperr (f : Failure) : PhpOutcome := .exception (exceptionClass f.error) f.message

/-- The closure's result; one that does not decode is null in both methods. -/
def returnValue (reg : Registry) (ret : Bytes) : PhpOutcome :=
  if ret = [] then .value .null
  else
    match reg.decodeBytes ret with
    | .ok v => .value v
    | .error _ => .value .null

def invokeMutexWith (reg : Registry) : Except Failure Bytes → PhpOutcome
  | .error f =>
    if f.error = .generic then .custom (str "Mutex::withLock closure threw") else mutexRcToPhperr f
  | .ok ret => returnValue reg ret

def invokeMutexTryWith (reg : Registry) : Except Failure Bytes → PhpOutcome
  | .error f =>
    if f.error = .timeout then
      .exception (str "OxPHP\\Shared\\ContentionException") (str "Mutex::tryWithLock: lock is held")
    else if f.error = .generic then .custom (str "Mutex::tryWithLock closure threw")
    else mutexRcToPhperr f
  | .ok ret => returnValue reg ret

/-- An outcome without its text, which names the method. -/
inductive Report where
  | value (v : SharedValue)
  | threw
  | exception (className : Bytes)

def PhpOutcome.report : PhpOutcome → Report
  | value v => .value v
  | custom _ => .threw
  | exception className _ => .exception className

/-- `Mutex::withLock` on a free Mutex: what PHP code sees of it. -/
def withLock (reg : Registry) (id : SharedId) (thread : Thread) (m : MutexInner)
    (invoke : Option Invoked) : Report :=
  (invokeMutexWith reg (mutexWith reg id thread m invoke).answer).report

def tryWithLock (reg : Registry) (id : SharedId) (thread : Thread) (m : MutexInner)
    (invoke : Option Invoked) : Report :=
  (invokeMutexTryWith reg (mutexTryWith reg id thread m invoke).answer).report

variable {reg : Registry} {id : SharedId} {thread : Thread} {m : MutexInner}
  {invoke : Option Invoked}

theorem applyPartial_eq_apply (reg : Registry) (m : MutexInner) (i : Invoked) :
    applyPartial reg m i.newState = m.apply reg.decode i.state := by
  unfold applyPartial Invoked.state MutexInner.apply Registry.decodeBytes
  split
  · rfl
  · cases portbufToSv i.newState with
    | error e => rfl
    | ok raw =>
      change (match (reg.decode raw).mapError Failure.error with
        | .ok v => { m with state := v }
        | .error _ => m) = _
      dsimp only [Except.toOption, Option.map]
      cases reg.decode raw <;> rfl

/-- A call and the registry's operation leave the same Mutex, and both return or
both fail with the same error. -/
structure Runs (a : Locked) (b : Except Failure Unit × MutexInner) : Prop where
  inner : a.inner = b.2
  answer : (a.answer.map fun _ => ()).mapError Failure.error = b.1.mapError Failure.error

/-- A `tryWithLock` by a thread that does not hold the Mutex is the one the
registry's operations run. -/
theorem mutexTryWith_runs (hh : id ∉ thread.held) :
    Runs (mutexTryWith reg id thread m invoke) (m.tryWithLock reg.decode (outcome invoke)) := by
  unfold mutexTryWith MutexInner.tryWithLock
  rw [if_neg hh]
  split
  · exact ⟨rfl, rfl⟩
  · match invoke with
    | none | some ⟨.bailout, _, _, _⟩ | some ⟨.badCallable, _, _, _⟩ => exact ⟨rfl, rfl⟩
    | some ⟨.ok, _, _, false⟩ => exact ⟨rfl, rfl⟩
    | some ⟨.ok, _, _, true⟩ | some ⟨.phpThrew, _, _, _⟩ | some ⟨.badReturn, _, _, _⟩ =>
      exact ⟨applyPartial_eq_apply reg m _, rfl⟩

/-- So is a `withLock` the detector has no signal for, where the bytes of the
state are a value: others it refuses, and the operation has no bytes to refuse. -/
theorem mutexWith_runs (hh : id ∉ thread.held) (hs : thread.breakSignal = false)
    (hread : ∀ i, invoke = some i → i.newState = [] ∨ ∃ raw, portbufToSv i.newState = .ok raw) :
    Runs (mutexWith reg id thread m invoke) (m.withLock reg.decode (outcome invoke)) := by
  unfold mutexWith MutexInner.withLock
  rw [if_neg hh, hs, if_neg Bool.false_ne_true]
  split
  · exact ⟨rfl, rfl⟩
  · match invoke with
    | none | some ⟨.bailout, _, _, _⟩ | some ⟨.badCallable, _, _, _⟩ => exact ⟨rfl, rfl⟩
    | some ⟨.phpThrew, _, _, _⟩ | some ⟨.badReturn, _, _, _⟩ =>
      exact ⟨applyPartial_eq_apply reg m _, rfl⟩
    | some ⟨.ok, _, _, false⟩ | some ⟨.ok, [], _, true⟩ => exact ⟨rfl, rfl⟩
    | some ⟨.ok, b :: rest, ret, true⟩ =>
      have hn : b :: rest ≠ [] := List.cons_ne_nil b rest
      obtain ⟨raw, hraw⟩ := (hread _ rfl).resolve_left hn
      dsimp only [mutexWithClosure, outcome, Invoked.state, Registry.decodeBytes]
      rw [if_pos ⟨rfl, hn⟩, if_pos rfl, if_neg hn, hraw]
      dsimp only [bind, Except.bind, Except.toOption, Option.map]
      cases reg.decode raw <;> exact ⟨rfl, rfl⟩

theorem decodeBytes_ne_deadlock {bytes : Bytes} {e : SharedError}
    (h : reg.decodeBytes bytes = .error e) : e ≠ .deadlock := by
  unfold Registry.decodeBytes at h
  cases hr : portbufToSv bytes with
  | error e' =>
    rw [hr] at h
    cases h
    rcases portbufToSv_malformed hr with rfl | rfl
    · decide
    · decide
  | ok raw =>
    rw [hr] at h
    change (reg.decode raw).mapError Failure.error = .error e at h
    unfold Registry.decode at h
    split at h
    · cases h
    · cases h
      decide

theorem mutexWithClosure_ne_deadlock {f : Failure}
    (h : (mutexWithClosure reg m invoke).answer = .error f) : f.error ≠ .deadlock := by
  have hr : ∀ {e : SharedError} {message : Bytes} {m' : MutexInner}, e ≠ .deadlock →
      (refused e message m').answer = .error f → f.error ≠ .deadlock := by
    intro e message m' he ha
    cases ha
    exact he
  unfold mutexWithClosure at h
  split at h
  · exact hr (by decide) h
  · split at h
    · split at h
      · split at h
        · cases h
        · next e hd => exact hr (decodeBytes_ne_deadlock hd) h
      · cases h
    · cases h
      decide
    · exact hr (by decide) h
    · exact hr (by decide) h
    · exact hr (by decide) h

end MutexLock

end OxPhp.Shared
