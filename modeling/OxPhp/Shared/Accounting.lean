import OxPhp.Lib.Keyed
import OxPhp.Lib.Ledger
import OxPhp.Shared.MemBytes
import OxPhp.Shared.Registry

/-!
# Accounting, step by step

The counters of `plugins/ox_shared/registry.rs` under concurrent inserts, drops
and Map operations.  A Map operation books its bytes in two later steps, first in
the entry and then in the total.  Additions are on natural numbers; `fetch_sub`
wraps at 64 bits and `adjust_mem_bytes` stops at zero.
-/

namespace OxPhp.Shared.Accounting

open ByteStr Interleave

/-- What the deployment fixes: the caps, how a Map's keys spread over shards,
and what the cycle walker may answer. -/
structure Setting where
  maxEntries : Nat
  maxBytes : Nat
  shards : Nat
  shardOf : MapKey → Fin shards
  walker : SharedId → List SharedRef → List (Except Failure Unit)

/-! ## Counters -/

def fetchSub (n d : Nat) : Nat := if d ≤ n then n - d else n + 2 ^ 64 - d

/-- One counter after `adjust_mem_bytes`. -/
def adjusted (n : Nat) (delta : Int) : Nat :=
  if 0 < delta then n + delta.toNat else n - (-delta).toNat

theorem fetchSub_of_le {n d : Nat} (h : d ≤ n) : fetchSub n d + d = n := by
  rw [fetchSub, if_pos h, Nat.sub_add_cancel h]

theorem adjusted_of_nonneg {n : Nat} {delta : Int} (h : 0 ≤ (n : Int) + delta) :
    (adjusted n delta : Int) = n + delta := by
  unfold adjusted
  split <;> omega

theorem adjusted_add_natCast (n d : Nat) : adjusted n (d : Int) = n + d := by
  have hadd := adjusted_of_nonneg (show 0 ≤ (n : Int) + d by omega)
  omega

theorem adjusted_sub_natCast {n d : Nat} (h : d ≤ n) : adjusted n (-(d : Int)) = n - d := by
  have hsub := adjusted_of_nonneg (show 0 ≤ (n : Int) + -(d : Int) by omega)
  omega

/-! ## Entries -/

/-- A Map with the sum of its striped counters, or another type with its size. -/
inductive Content where
  | map (m : MapInner) (counted : Int)
  | other (bytes : Nat)

def Content.memBytes : Content → Nat
  | map m counted => m.memBytesCounting counted.toNat
  | other bytes => bytes

structure Entry where
  id : SharedId
  memBytes : Nat
  content : Content
  users : Nat
  locked : List Nat

def Entry.holding (e : Entry) (m : MapInner) (counted : Int) : Entry :=
  { e with content := .map m counted }

structure Accounts where
  totalEntries : Nat
  totalBytes : Nat
  nextId : SharedId
  live : List Entry

def Accounts.init (seed : SharedId) : Accounts where
  totalEntries := 0
  totalBytes := 0
  nextId := seed
  live := []

/-! ## Operations on a Map -/

inductive MapOp where
  | set (key : MapKey) (value : SharedValue)
  | swap (key : MapKey) (value : SharedValue)
  | setIfAbsent (key : MapKey) (value : SharedValue)
  | compareAndSet (key : MapKey) (expected new : Option SharedValue)
  | setManyBatch (batch : List (MapKey × SharedValue))
  | pop (key : MapKey)
  | clear

inductive Answer where
  | inserted (id : SharedId) (mem : Nat)
  | refused (f : Failure)
  | dropped (id : SharedId) (mem : Nat)
  | stored (prev : Option SharedValue)
  | swapped (applied : Bool)
  | storedMany (inserted : Nat)
  | popped (value : Option SharedValue)
  | cleared (removed : Nat)
  | failed (f : Failure)
  | failedAfter (f : Failure) (inserted : Nat)

inductive Rest where
  | answer (a : Answer)
  | setEach (inserted : Nat) (batch : List (MapKey × SharedValue))

structure After where
  /-- The shard an overwrite lets go of when it is done. -/
  unlock : Option Nat
  uncount : Bool
  rest : Rest

inductive Inside where
  | update (op : MapOp)
  | setEach (inserted : Nat) (batch : List (MapKey × SharedValue))
  | clear (shard removed : Nat) (delta : Int)
  | bookMem (delta : Int) (after : After)
  | bookTotal (delta : Int) (after : After)
  | finish (after : After)

/-- Book a change; none is booked for nothing. -/
def trackMapDelta (delta : Int) (after : After) : Inside :=
  if delta = 0 then .finish after else .bookMem delta after

/-- What an operation turns to, and the entry it leaves. -/
abbrev Turn := Next Inside Answer × Entry

section Update

variable (S : Setting) (e : Entry) (m : MapInner) (counted : Int) (key : MapKey)
  (value : SharedValue)

/-- Insert under a vacant key. The counters are summed stripe by stripe while
others change them, so against a cap the sum may come out on either side. -/
def insertVacant (rest : Rest) (fail : Failure → Answer) : List Turn :=
  (.go (trackMapDelta (mapEntryCost key value) ⟨none, false, rest⟩),
    e.holding (m.insert key value) (counted + 1)) ::
  match m.maxEntries with
  | some max => [(.ret (fail (MapInner.capacityFailure max)), e)]
  | none => []

/-- Replace the value of an occupied key; its shard stays locked. -/
def replaceOccupied (prev : SharedValue) (rest : Rest) : List Turn :=
  [(.go (trackMapDelta (value.memBytes - prev.memBytes) ⟨some (S.shardOf key), false, rest⟩),
    { e.holding (m.insert key value) counted with locked := S.shardOf key :: e.locked })]

def removeOccupied (prev : SharedValue) (answer : Answer) : List Turn :=
  [(.go (trackMapDelta (-mapEntryCost key prev) ⟨none, true, .answer answer⟩),
    e.holding (m.pop key).2 counted)]

def store (rest : Option SharedValue → Rest) (fail : Failure → Answer) : List Turn :=
  match m.entries.lookup key with
  | some prev => replaceOccupied S e m counted key value prev (rest (some prev))
  | none => insertVacant e m counted key value (rest none) fail

def compareAndSet (expected new : Option SharedValue) : List Turn :=
  match m.entries.lookup key, expected with
  | some present, some x =>
    if svContentEq present x then
      match new with
      | some v => replaceOccupied S e m counted key v present (.answer (.swapped true))
      | none => removeOccupied e m counted key present (.swapped true)
    else [(.ret (.swapped false), e)]
  | some _, none => [(.ret (.swapped false), e)]
  | none, some _ => [(.ret (.swapped false), e)]
  | none, none =>
    match new with
    | some v => insertVacant e m counted key v (.answer (.swapped true)) .failed
    | none => [(.ret (.swapped true), e)]

def pop : List Turn :=
  match m.entries.lookup key with
  | some prev => removeOccupied e m counted key prev (.popped (some prev))
  | none => [(.ret (.popped none), e)]

def locking (turns : List Turn) : List Turn :=
  if (S.shardOf key : Nat) ∈ e.locked then [] else turns

end Update

section Act

variable (S : Setting)

def Inside.act (e : Entry) (m : MapInner) (counted : Int) (total : Nat) :
    Inside → List (Turn × Nat)
  | .update op =>
    let turns : List Turn := match op with
      | .set key value =>
        locking S e key (store S e m counted key value (fun prev => .answer (.stored prev)) .failed)
      | .swap key value =>
        locking S e key (store S e m counted key value (fun prev => .answer (.stored prev)) .failed)
      | .setIfAbsent key value =>
        locking S e key (match m.entries.lookup key with
          | some prev => [(.ret (.stored (some prev)), e)]
          | none => insertVacant e m counted key value (.answer (.stored none)) .failed)
      | .compareAndSet key expected new =>
        locking S e key (compareAndSet S e m counted key expected new)
      | .setManyBatch batch => [(.go (.setEach 0 batch), e)]
      | .pop key => locking S e key (pop e m counted key)
      | .clear => [(.go (.clear 0 0 0), e)]
    turns.map fun turn => (turn, total)
  | .setEach inserted [] => [((.ret (.storedMany inserted), e), total)]
  | .setEach inserted ((key, value) :: batch) =>
    let turns : List Turn := match MapInner.rejectUnstorable value with
      | .error f => [(.ret (.failedAfter f inserted), e)]
      | .ok _ => locking S e key (store S e m counted key value
          (fun _ => .setEach (inserted + 1) batch) fun f => .failedAfter f inserted)
    turns.map fun turn => (turn, total)
  | .clear shard removed delta =>
    if shard < S.shards then
      if shard ∈ e.locked then []
      else
        let gone := m.keep fun key => S.shardOf key = shard
        [((.go (.clear (shard + 1) (removed + gone.count) (delta - gone.costs)),
          e.holding (m.keep fun key => !decide (S.shardOf key = shard)) (counted - gone.count)),
          total)]
    else [((.go (trackMapDelta delta ⟨none, false, .answer (.cleared removed)⟩), e), total)]
  | .bookMem delta after =>
    [((.go (.bookTotal delta after), { e with memBytes := adjusted e.memBytes delta }), total)]
  | .bookTotal delta after => [((.go (.finish after), e), adjusted total delta)]
  | .finish after =>
    let left := { e.holding m (if after.uncount then counted - 1 else counted) with
      locked := match after.unlock with
        | some shard => e.locked.erase shard
        | none => e.locked }
    match after.rest with
    | .answer a => [((.ret a, left), total)]
    | .setEach inserted batch => [((.go (.setEach inserted batch), left), total)]

/-- The values that must not be null, and those the cycle walker sees. -/
def MapOp.checked : MapOp → List SharedValue
  | set _ value => [value]
  | swap _ value => [value]
  | setIfAbsent _ value => [value]
  | compareAndSet _ _ new => new.toList
  | _ => []

def MapOp.roots : MapOp → List SharedRef
  | setManyBatch batch => batch.flatMap fun kv => collectSharedRefs kv.2
  | op => op.checked.flatMap collectSharedRefs

def MapOp.check (self : SharedId) (op : MapOp) : List (Except Failure Unit) :=
  match op.checked.mapM MapInner.rejectUnstorable with
  | .error f => [.error f]
  | .ok _ => if op.roots.isEmpty then [.ok ()] else S.walker self op.roots

/-! ## Inserts, drops and calls -/

inductive NewInner where
  | map (maxEntries : Option Nat)
  | other (bytes : Nat)

def NewInner.content : NewInner → Content
  | map maxEntries => .map (.new maxEntries) 0
  | other bytes => .other bytes

def NewInner.mem (new : NewInner) : Nat := new.content.memBytes + entryFixedOverhead

inductive Pc where
  | reserveEntry (new : NewInner)
  | rollbackEntry (f : Failure)
  | reserveBytes (new : NewInner)
  | rollbackBytes (mem : Nat) (f : Failure)
  | allocId (new : NewInner)
  | publish (new : NewInner) (id : SharedId)
  | dropRemove (id : SharedId)
  | dropCount (id : SharedId) (mem : Nat)
  | dropBytes (id : SharedId) (mem : Nat)
  | enter (id : SharedId) (op : MapOp)
  | inside (id : SharedId) (p : Inside)

inductive Call where
  | insert (new : NewInner)
  | drop (id : SharedId)
  | onMap (id : SharedId) (op : MapOp)

def Call.entry : Call → Pc
  | insert new => .reserveEntry new
  | drop id => .dropRemove id
  | onMap id op => .enter id op

def entriesFailure (newCount : Nat) : Failure where
  error := .capacityExceeded
  message := str ("Entries capacity exceeded: " ++ toString newCount ++ " / " ++
    toString S.maxEntries ++ " entries")

def bytesFailure (newBytes : Nat) : Failure where
  error := .capacityExceeded
  message := str ("Bytes capacity exceeded: " ++ toString newBytes ++ " / " ++
    toString S.maxBytes ++ " bytes")

/-- An operation that answers no longer holds the entry. -/
def leaving : Next Inside Answer → Entry → Entry
  | .go _, e => e
  | .ret _, e => { e with users := e.users - 1 }

def within (id : SharedId) : Next Inside Answer → Next Pc Answer
  | .go p => .go (.inside id p)
  | .ret answer => .ret answer

def act (pc : Pc) (s : Accounts) : List (Next Pc Answer × Accounts) :=
  match pc with
  | .reserveEntry new =>
    let newCount := s.totalEntries + 1
    let next := if newCount > S.maxEntries then .rollbackEntry (entriesFailure S newCount)
      else .reserveBytes new
    [(.go next, { s with totalEntries := newCount })]
  | .rollbackEntry f => [(.ret (.refused f), { s with totalEntries := fetchSub s.totalEntries 1 })]
  | .reserveBytes new =>
    let newBytes := s.totalBytes + new.mem
    let next := if newBytes > S.maxBytes then .rollbackBytes new.mem (bytesFailure S newBytes)
      else .allocId new
    [(.go next, { s with totalBytes := newBytes })]
  | .rollbackBytes mem f =>
    [(.go (.rollbackEntry f), { s with totalBytes := fetchSub s.totalBytes mem })]
  | .allocId new => [(.go (.publish new s.nextId), { s with nextId := s.nextId + 1 })]
  | .publish new id =>
    let e : Entry :=
      { id, memBytes := new.mem, content := new.content, users := 0, locked := [] }
    [(.ret (.inserted id new.mem), { s with live := s.live ++ [e] })]
  | .dropRemove id =>
    match Keyed.find Entry.id s.live id with
    | some e =>
      -- the last holder is the one that drops
      if e.users = 0 then
        [(.go (.dropCount id e.memBytes), { s with live := Keyed.erase Entry.id s.live id })]
      else []
    | none => []
  | .dropCount id mem =>
    [(.go (.dropBytes id mem), { s with totalEntries := fetchSub s.totalEntries 1 })]
  | .dropBytes id mem =>
    [(.ret (.dropped id mem), { s with totalBytes := fetchSub s.totalBytes mem })]
  | .enter id op =>
    match Keyed.find Entry.id s.live id with
    | none => [(.ret (.failed Registry.staleHandle), s)]
    | some e =>
      match e.content with
      | .other _ => [(.ret (.failed ⟨.type, []⟩), s)]
      | .map _ _ => (op.check S id).map fun
        | .error f => (.ret (.failed f), s)
        | .ok _ =>
          let held : Entry := { e with users := e.users + 1 }
          (.go (.inside id (.update op)),
            { s with live := Keyed.modify Entry.id s.live id fun _ => held })
  | .inside id p =>
    match Keyed.find Entry.id s.live id with
    | none => []
    | some e =>
      match e.content with
      | .other _ => []
      | .map m counted => (p.act S e m counted s.totalBytes).map fun out =>
        (within id out.1.1,
          { s with
            live := Keyed.modify Entry.id s.live id fun _ => leaving out.1.1 out.1.2
            totalBytes := out.2 })

def machine : Machine Accounts Pc Call Answer Empty where
  entry := Call.entry
  act := act S
  env := nofun

def start (seed : SharedId) : Config Accounts Pc Answer := ⟨.init seed, [], []⟩

end Act

end OxPhp.Shared.Accounting
