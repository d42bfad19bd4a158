import Mathlib.Data.Multiset.Range
import OxPhp.Lib.Ledger
import OxPhp.Shared.Value

/-!
# The budget of a Pool

`plugins/ox_shared/types/pool.rs` and `worker_liveness.rs`.  Three counters say who
has what, and none of them is changed together with another: `size`, the
`in_flight` count of each thread, and the deques.  Every reservation has a number
here that the code does not have; a thread's key may be used again.
-/

namespace OxPhp.Shared.Pool

open Interleave

/-- The key of a worker thread. -/
abbrev ThreadKey := UInt64

/-- An object of the Pool, with the thread that made it. -/
structure PoolSlot where
  unit : Nat
  owner : ThreadKey
  lastActive : Nat
  deriving DecidableEq

/-- A Pool, and what the threads and the clock contribute. -/
structure PoolInner where
  maxSize : UInt64
  idleTimeout : Nat
  home : Option ThreadKey
  size : UInt64
  /-- The deques, in one list: a thread's deque is what it owns, in order. -/
  idle : List PoolSlot
  inFlight : ThreadKey → Option UInt64
  /-- Guards on entries of `inFlight`, which keep them from being removed. -/
  reading : List ThreadKey
  requestEnded : Bool
  closed : Bool
  checkedOut : List PoolSlot
  /-- Slots behind a handle whose owner has exited since they were handed out. -/
  orphaned : List PoolSlot
  liveWorkers : ThreadKey → Bool
  clock : Nat
  minted : Nat
  refunded : List Nat

namespace PoolInner

def new (maxSize : UInt64) (idleTimeout : Nat) (home : Option ThreadKey) : PoolInner where
  maxSize := maxSize
  idleTimeout := idleTimeout
  home := home
  size := 0
  idle := []
  inFlight := fun _ => none
  reading := []
  requestEnded := false
  closed := false
  checkedOut := []
  orphaned := []
  liveWorkers := fun _ => false
  clock := 0
  minted := 0
  refunded := []

variable (p : PoolInner)

def foreignToCurrentThread (me : ThreadKey) : Bool :=
  p.home.any fun home => home != me || p.requestEnded

/-- `fetch_sub` on `size`, on behalf of a reservation. -/
def releaseBudget (unit : List Nat) : PoolInner :=
  { p with size := p.size - 1, refunded := p.refunded ++ unit }

def dequeOf (key : ThreadKey) : List PoolSlot := p.idle.filter fun slot => slot.owner = key

def withDeque (key : ThreadKey) (deque : List PoolSlot) : PoolInner :=
  { p with idle := (p.idle.filter fun slot => slot.owner ≠ key) ++ deque }

/-- `track_acquired_by_me`, as the slot goes out behind a handle. -/
def handOut (me : ThreadKey) (slot : PoolSlot) : PoolInner :=
  { p with
    inFlight := Function.update p.inFlight me (some ((p.inFlight me).getD 0 + 1))
    checkedOut := p.checkedOut ++ [slot] }

/-- A deque with a slot put back behind every slot that is not younger. -/
def insertByAge (slot : PoolSlot) : List PoolSlot → List PoolSlot
  | [] => [slot]
  | x :: rest =>
    if slot.lastActive < x.lastActive then slot :: x :: rest else x :: insertByAge slot rest

def putBack (me : ThreadKey) (slots : List PoolSlot) : PoolInner :=
  p.withDeque me (slots.foldl (fun deque slot => insertByAge slot deque) (p.dequeOf me))

def isStale (slot : PoolSlot) : Bool := p.idleTimeout ≤ p.clock - slot.lastActive

end PoolInner

/-! ## Operations -/

/-- The entry points of a Pool and of its threads. -/
inductive Call where
  | acquire (me : ThreadKey) (tryOnly : Bool)
  /-- A handle is released or dropped, on any thread. -/
  | release (me : ThreadKey) (unit : Nat)
  | evictAll (me : ThreadKey)
  | evictStale (me : ThreadKey)
  | registerWorker (me : ThreadKey)
  | unregisterWorker (me : ThreadKey)
  | endRequest (me : ThreadKey)
  /-- Whether the thread may free its idle slots, and no bailout is held back. -/
  | onShutdownNotify (me : ThreadKey) (frees : Bool)
  | onDrop (me : ThreadKey) (frees : Bool)

inductive Answer where
  | acquired (slot : PoolSlot)
  | failed (e : SharedError)
  | unwound
  | released
  | evicted (count : Nat)
  | done

/-- What follows once slots have been destroyed or forgotten. -/
inductive Then where
  | done
  | forgetRest
  | endRequest (me : ThreadKey)
  | unregister (me : ThreadKey)

/-- Where an operation stands, with the slots it holds. -/
inductive Pc where
  | checkForeign (me : ThreadKey) (tryOnly : Bool)
  | checkClosed (me : ThreadKey) (tryOnly : Bool)
  | tryAcquireLocal (me : ThreadKey) (tryOnly : Bool)
  | tryReserveBudget (me : ThreadKey) (tryOnly : Bool)
  | useCallables (me : ThreadKey) (unit : Nat)
  | factory (me : ThreadKey) (unit : Nat)
  | track (me : ThreadKey) (slot : PoolSlot)
  | refundFailed (unit : Nat) (e : SharedError)
  | saturated (me : ThreadKey) (tryOnly : Bool)
  | untrackLoad (me : ThreadKey) (unit : Nat)
  | untrackSub (me : ThreadKey) (slot : PoolSlot)
  | route (me : ThreadKey) (slot : PoolSlot)
  | park (slot : PoolSlot)
  | refundDead (slot : PoolSlot)
  | take (me : ThreadKey) (stale : Bool)
  | destroy (me : ThreadKey) (slots : List PoolSlot) (destroyed : Nat) (after : Then)
  | refundDestroyed (me : ThreadKey) (slot : PoolSlot) (rest : List PoolSlot) (destroyed : Nat)
      (bailed : Bool) (after : Then)
  | putBack (me : ThreadKey) (slots : List PoolSlot) (destroyed : Nat) (after : Then)
  | register (me : ThreadKey)
  | reclaim (me : ThreadKey)
  | refundReclaimed (me : ThreadKey) (count : UInt64) (units : List Nat)
  | forget (key : ThreadKey) (after : Then)
  | refundForgotten (slots : List PoolSlot) (after : Then)
  | unregister (me : ThreadKey)
  | closeAtEnd (me : ThreadKey)
  | close (me : ThreadKey) (frees : Bool) (after : Then)
  | takeOwn (me : ThreadKey) (after : Then)
  | forgetRest

/-- The first step of a call. -/
def Call.entry : Call → Pc
  | acquire me tryOnly => .checkForeign me tryOnly
  | release me unit => .untrackLoad me unit
  | evictAll me => .take me false
  | evictStale me => .take me true
  | registerWorker me => .register me
  | unregisterWorker me => .reclaim me
  | endRequest me => .forget me (.endRequest me)
  | onShutdownNotify me frees => .close me frees .done
  | onDrop me frees => .close me frees .forgetRest

/-- How an operation goes on once its slots are gone. -/
def Then.next (destroyed : Nat) : Then → Next Pc Answer
  | done => .ret (.evicted destroyed)
  | forgetRest => .go .forgetRest
  | endRequest me => .go (.closeAtEnd me)
  | unregister me => .go (.unregister me)

section Act

variable (p : PoolInner)

/-- Destroy the first of the slots, or have done: what a bailout left goes back. -/
def destroying (me : ThreadKey) (destroyed : Nat) (after : Then) : List PoolSlot → Next Pc Answer
  | [] => after.next destroyed
  | slots => .go (.destroy me slots destroyed after)

/-- The handle lets go of its slot, and the owner's count is looked up. -/
def untrackLoad (me : ThreadKey) (slot : PoolSlot) : Next Pc Answer × PoolInner :=
  match p.inFlight slot.owner with
  | some n =>
    if n = 0 then (.go (.route me slot), p)
    else (.go (.untrackSub me slot), { p with reading := slot.owner :: p.reading })
  | none => (.go (.route me slot), p)

/-- One step of an operation: the possible outcomes. -/
def act : Pc → PoolInner → List (Next Pc Answer × PoolInner)
  | .checkForeign me tryOnly, p =>
    if p.foreignToCurrentThread me then [(.ret (.failed .closed), p)]
    else [(.go (.checkClosed me tryOnly), p)]
  | .checkClosed me tryOnly, p =>
    if p.closed then [(.ret (.failed .closed), p)] else [(.go (.tryAcquireLocal me tryOnly), p)]
  | .tryAcquireLocal me tryOnly, p =>
    match p.dequeOf me with
    | slot :: rest => [(.go (.track me slot), p.withDeque me rest)]
    | [] => [(.go (.tryReserveBudget me tryOnly), p)]
  | .tryReserveBudget me tryOnly, p =>
    if p.size < p.maxSize then
      [(.go (.useCallables me p.minted), { p with size := p.size + 1, minted := p.minted + 1 })]
    else [(.go (.saturated me tryOnly), p)]
  | .useCallables me unit, p =>
    -- the request that made the factory may have begun to shut down
    [(.go (.factory me unit), p), (.go (.refundFailed unit .closed), p)]
  | .factory me unit, p =>
    -- it makes an object; or throws, is ended by a bailout, or makes no object
    [(.go (.track me ⟨unit, me, p.clock⟩), p), (.go (.refundFailed unit .generic), p),
      (.go (.refundFailed unit .type), p)]
  | .track me slot, p =>
    if me ∈ p.reading then [] else [(.ret (.acquired slot), p.handOut me slot)]
  | .refundFailed unit e, p => [(.ret (.failed e), p.releaseBudget [unit])]
  | .saturated me tryOnly, p =>
    if tryOnly then [(.ret (.failed .timeout), p)]
    else
      -- the deadline has passed; or the wait or the park ends, one way or another
      [(.ret (.failed .timeout), p), (.go (.checkForeign me tryOnly), p), (.ret .unwound, p),
        (.ret (.failed .cancelled), p), (.ret (.failed .generic), p)]
  | .untrackLoad me unit, p =>
    match p.checkedOut.find? fun slot => slot.unit = unit with
    | some slot => [untrackLoad { p with checkedOut := p.checkedOut.erase slot } me slot]
    | none =>
      match p.orphaned.find? fun slot => slot.unit = unit with
      | some slot => [untrackLoad { p with orphaned := p.orphaned.erase slot } me slot]
      -- a handle that has been released already
      | none => [(.ret .released, p)]
  | .untrackSub me slot, p =>
    [(.go (.route me slot),
      { p with
        inFlight := Function.update p.inFlight slot.owner
          ((p.inFlight slot.owner).map fun n => n - 1)
        reading := p.reading.erase slot.owner })]
  | .route me slot, p =>
    if slot.owner ≠ me ∧ p.liveWorkers slot.owner = false then [(.go (.refundDead slot), p)]
    else [(.go (.park slot), p)]
  | .park slot, p =>
    [(.ret .released,
      p.withDeque slot.owner (p.dequeOf slot.owner ++ [{ slot with lastActive := p.clock }]))]
  | .refundDead slot, p => [(.ret .released, p.releaseBudget [slot.unit])]
  | .take me stale, p =>
    let taken := if stale then (p.dequeOf me).takeWhile p.isStale else p.dequeOf me
    let left := if stale then (p.dequeOf me).dropWhile p.isStale else []
    [(destroying me 0 .done taken, p.withDeque me left)]
  | .destroy _ [] destroyed after, p => [(after.next destroyed, p)]
  | .destroy me (slot :: rest) destroyed after, p =>
    -- `$destroy` returns, or a bailout ends it
    [(.go (.refundDestroyed me slot rest destroyed false after), p),
      (.go (.refundDestroyed me slot rest destroyed true after), p)]
  | .refundDestroyed me slot rest destroyed bailed after, p =>
    [(if bailed then .go (.putBack me rest (destroyed + 1) after)
      else destroying me (destroyed + 1) after rest, p.releaseBudget [slot.unit])]
  | .putBack me slots destroyed after, p => [(after.next destroyed, p.putBack me slots)]
  | .register me, p =>
    [(.ret .done, { p with liveWorkers := Function.update p.liveWorkers me true })]
  | .reclaim me, p =>
    if me ∈ p.reading then []
    else
      let lost := p.checkedOut.filter fun slot => slot.owner = me
      [(.go (.refundReclaimed me ((p.inFlight me).getD 0) (lost.map PoolSlot.unit)),
        { p with
          inFlight := Function.update p.inFlight me none
          checkedOut := p.checkedOut.filter fun slot => slot.owner ≠ me
          orphaned := p.orphaned ++ lost })]
  | .refundReclaimed me count units, p =>
    if count = 0 then [(.go (.forget me (.unregister me)), p)]
    else [(.go (.refundReclaimed me (count - 1) units.tail), p.releaseBudget (units.take 1))]
  | .forget key after, p =>
    [(.go (.refundForgotten (p.dequeOf key) after), p.withDeque key [])]
  | .refundForgotten [] after, p => [(after.next 0, p)]
  | .refundForgotten (slot :: rest) after, p =>
    [(.go (.refundForgotten rest after), p.releaseBudget [slot.unit])]
  | .unregister me, p =>
    [(.ret .done, { p with liveWorkers := Function.update p.liveWorkers me false })]
  | .closeAtEnd me, p =>
    [(.ret .done, if p.home = some me then { p with requestEnded := true, closed := true } else p)]
  | .close me frees after, p =>
    [(if frees then .go (.takeOwn me after) else after.next 0, { p with closed := true })]
  | .takeOwn me after, p => [(destroying me 0 after (p.dequeOf me), p.withDeque me [])]
  | .forgetRest, p =>
    match p.idle with
    | [] => [(.ret .done, p)]
    | slot :: _ => [(.go (.forget slot.owner .forgetRest), p)]

/-- The Pool; the environment lets time pass. -/
def machine : Machine PoolInner Pc Call Answer Nat where
  entry := Call.entry
  act := act
  env := fun d p => { p with clock := p.clock + d }

/-- A new Pool. -/
def start (maxSize : UInt64) (idleTimeout : Nat) (home : Option ThreadKey) :
    Config PoolInner Pc Answer := ⟨.new maxSize idleTimeout home, [], []⟩

end Act

/-! ## Where the reservations are -/

/-- The reservations behind a list of slots. -/
def units (slots : List PoolSlot) : Multiset Nat := ↑(slots.map PoolSlot.unit)

/-- Reservations the Pool can see: parked, or behind a handle. -/
def here (p : PoolInner) : Multiset Nat := units p.idle + units p.checkedOut

/-- Reservations an operation has to hand on or to refund. -/
def hand : Pc → Multiset Nat
  | .useCallables _ unit => {unit}
  | .factory _ unit => {unit}
  | .track _ slot => units [slot]
  | .refundFailed unit _ => {unit}
  | .untrackSub _ slot => units [slot]
  | .route _ slot => units [slot]
  | .park slot => units [slot]
  | .refundDead slot => units [slot]
  | .destroy _ slots _ _ => units slots
  | .refundDestroyed _ slot rest _ _ _ => units (slot :: rest)
  | .putBack _ slots _ _ => units slots
  | .refundReclaimed _ _ units => ↑units
  | .refundForgotten slots _ => units slots
  | _ => 0

/-- What a step does with reservations: hand them on, make one, or refund one. -/
inductive Passes (p p' : PoolInner) (h h' : Multiset Nat) : Prop
  | moves (maxSize : p'.maxSize = p.maxSize) (size : p'.size = p.size)
      (minted : p'.minted = p.minted) (refunded : p'.refunded = p.refunded)
      (units : here p + h = here p' + h')
  | mints (maxSize : p'.maxSize = p.maxSize) (room : p.size < p.maxSize)
      (size : p'.size = p.size + 1) (minted : p'.minted = p.minted + 1)
      (refunded : p'.refunded = p.refunded) (units : here p' + h' = here p + h + {p.minted})
  | refunds (unit : Nat) (maxSize : p'.maxSize = p.maxSize) (size : p'.size = p.size - 1)
      (minted : p'.minted = p.minted) (refunded : p'.refunded = p.refunded ++ [unit])
      (units : here p + h = here p' + h' + {unit})

section Units

variable {p p' : PoolInner} {key me : ThreadKey} {slot : PoolSlot}
  {slots rest deque : List PoolSlot}

theorem units_cons : units (slot :: rest) = {slot.unit} + units rest := rfl

theorem units_nil : units [] = 0 := rfl

theorem units_append : units (slots ++ rest) = units slots + units rest := by
  rw [units, List.map_append, ← Multiset.coe_add]
  rfl

theorem units_perm (h : slots.Perm rest) : units slots = units rest :=
  Multiset.coe_eq_coe.mpr (h.map _)

/-- What a thread owns and the rest make up all slots. -/
theorem units_split (key : ThreadKey) (slots : List PoolSlot) :
    units slots = units (slots.filter fun slot => slot.owner ≠ key) +
      units (slots.filter fun slot => slot.owner = key) := by
  have hsplit : ((slots.filter fun slot => slot.owner = key) ++
      slots.filter fun slot => slot.owner ≠ key).Perm slots := by
    have hneg : (slots.filter fun slot => slot.owner ≠ key) =
        slots.filter fun slot => !decide (slot.owner = key) :=
      List.filter_congr fun slot _ => decide_not
    rw [hneg]
    exact List.filter_append_perm _ _
  rw [← units_perm hsplit, units_append, add_comm]

theorem units_idle (p : PoolInner) (key : ThreadKey) :
    units p.idle = units (p.idle.filter fun slot => slot.owner ≠ key) + units (p.dequeOf key) :=
  units_split key p.idle

theorem units_withDeque : units (p.withDeque key deque).idle =
    units (p.idle.filter fun slot => slot.owner ≠ key) + units deque := units_append

/-- Slots taken off a deque leave what the Pool can see. -/
theorem here_withDeque (h : units (p.dequeOf key) = units deque + units slots) :
    here p = here (p.withDeque key deque) + units slots := by
  rw [here, here, units_withDeque, units_idle p key, h]
  change _ + units p.checkedOut = _ + units p.checkedOut + _
  abel

theorem insertByAge_perm (slot : PoolSlot) (deque : List PoolSlot) :
    (PoolInner.insertByAge slot deque).Perm (slot :: deque) := by
  induction deque with
  | nil => exact .refl _
  | cons x rest ih =>
    unfold PoolInner.insertByAge
    split
    · exact .refl _
    · exact (ih.cons x).trans (.swap slot x rest)

theorem foldl_insertByAge_perm (slots deque : List PoolSlot) :
    (slots.foldl (fun deque slot => PoolInner.insertByAge slot deque) deque).Perm
      (slots ++ deque) := by
  induction slots generalizing deque with
  | nil => exact .refl _
  | cons slot slots ih =>
    have hin := (insertByAge_perm slot deque).append_left slots
    exact (ih _).trans (hin.trans List.perm_middle)

/-- Slots put back are seen again, in whatever order. -/
theorem here_putBack : here (p.putBack me slots) = here p + units slots := by
  have hf : units (slots.foldl (fun deque slot => PoolInner.insertByAge slot deque)
      (p.dequeOf me)) = units slots + units (p.dequeOf me) := by
    rw [units_perm (foldl_insertByAge_perm slots _), units_append]
  rw [here, here, PoolInner.putBack, units_withDeque, hf, units_idle p me]
  change _ + units p.checkedOut = _ + units p.checkedOut + _
  abel

theorem hand_next (after : Then) (destroyed : Nat) :
    (after.next destroyed).holds hand (fun _ => 0) = 0 := by
  cases after <;> rfl

theorem hand_destroying (after : Then) (destroyed : Nat) (slots : List PoolSlot) :
    (destroying me destroyed after slots).holds hand (fun _ => 0) = units slots := by
  cases slots with
  | nil => exact hand_next after destroyed
  | cons slot rest => rfl

end Units

/-- What an operation may rely on: a slot it tracks is its own, and it refunds as many as it
counted. -/
def Valid : Pc → Prop
  | .track me slot => slot.owner = me
  | .refundReclaimed _ count units => count.toNat = units.length
  | _ => True

/-- **The condition.** No handle is released once its owner has exited while it
was out. -/
def Punctual (c : Config PoolInner Pc Answer) : Pc → Prop
  | .untrackLoad _ unit => ∀ slot ∈ c.shared.orphaned, slot.unit ≠ unit
  | _ => True

/-! ## The counts of the threads -/

/-- The `in_flight` count of a thread. -/
def flight (p : PoolInner) (key : ThreadKey) : Nat := ((p.inFlight key).getD 0).toNat

/-- The handles of a thread. -/
def outOf (key : ThreadKey) (slots : List PoolSlot) : Nat :=
  slots.countP fun slot => slot.owner = key

/-- Releases that have looked the owner's count up and are about to lower it. -/
def lowering (key : ThreadKey) : Pc → Nat
  | .untrackSub _ slot => if slot.owner = key then 1 else 0
  | _ => 0

/-- What a step does with the counts. -/
inductive Tallies (p p' : PoolInner) : Pc → Next Pc Answer → Prop
  | quiet {pc : Pc} {next : Next Pc Answer} (inFlight : p'.inFlight = p.inFlight)
      (reading : p'.reading = p.reading) (checkedOut : p'.checkedOut = p.checkedOut)
      (before : ∀ key, lowering key pc = 0)
      (after : ∀ key, next.holds (lowering key) (fun _ => 0) = 0) : Tallies p p' pc next
  | handsOut {me : ThreadKey} {slot : PoolSlot} (after : p' = p.handOut me slot) :
      Tallies p p' (.track me slot) (.ret (.acquired slot))
  | loads {me : ThreadKey} {unit : Nat} {slot : PoolSlot} {next : Next Pc Answer}
      (mem : slot ∈ p.checkedOut)
      (out : (next, p') = untrackLoad { p with checkedOut := p.checkedOut.erase slot } me slot) :
      Tallies p p' (.untrackLoad me unit) next
  | lowers {me : ThreadKey} {slot : PoolSlot}
      (inFlight : p'.inFlight = Function.update p.inFlight slot.owner
        ((p.inFlight slot.owner).map fun n => n - 1))
      (reading : p'.reading = p.reading.erase slot.owner)
      (checkedOut : p'.checkedOut = p.checkedOut) :
      Tallies p p' (.untrackSub me slot) (.go (.route me slot))
  | reclaims {me : ThreadKey} {next : Next Pc Answer} (unread : me ∉ p.reading)
      (inFlight : p'.inFlight = Function.update p.inFlight me none)
      (reading : p'.reading = p.reading)
      (checkedOut : p'.checkedOut = p.checkedOut.filter fun slot => slot.owner ≠ me)
      (after : ∀ key, next.holds (lowering key) (fun _ => 0) = 0) :
      Tallies p p' (.reclaim me) next

/-! ## What a step can do -/

/-- A step hands reservations on, keeps the counts and leaves what follows valid. -/
structure Step (p p' : PoolInner) (pc : Pc) (next : Next Pc Answer) : Prop where
  passes : Passes p p' (hand pc) (next.holds hand fun _ => 0)
  tallies : Tallies p p' pc next
  valid : ∀ pc' ∈ next.pcs, Valid pc'

/-- An operation that lowers no count next and has nothing to prove. -/
structure Plain (next : Next Pc Answer) : Prop where
  lowering : ∀ key, next.holds (lowering key) (fun _ => 0) = 0
  valid : ∀ pc ∈ next.pcs, Valid pc

theorem plain_ret (answer : Answer) : Plain (.ret answer) :=
  ⟨fun _ => rfl, Next.forall_pcs_ret answer⟩

theorem valid_go {pc : Pc} (h : Valid pc) : ∀ pc' ∈ (.go pc : Next Pc Answer).pcs, Valid pc' :=
  fun _ hpc => List.mem_singleton.mp hpc ▸ h

/-- An operation that holds these reservations and lowers no count next. -/
def Holds (pc : Pc) (held : Multiset Nat) : Prop :=
  ∀ key, (hand pc, lowering key pc) = (held, 0)

theorem Holds.hand {pc : Pc} {held : Multiset Nat} (h : Holds pc held) : hand pc = held :=
  congrArg Prod.fst (h 0)

theorem Holds.lowering {pc : Pc} {held : Multiset Nat} (h : Holds pc held) (key : ThreadKey) :
    lowering key pc = 0 := congrArg Prod.snd (h key)

theorem plain_go {pc : Pc} {held : Multiset Nat} (hv : Valid pc) (h : Holds pc held) :
    Plain (.go pc) :=
  ⟨h.lowering, valid_go hv⟩

theorem plain_next (after : Then) (destroyed : Nat) : Plain (after.next destroyed) := by
  cases after with
  | done => exact plain_ret _
  | forgetRest | endRequest me | unregister me => exact plain_go trivial fun _ => rfl

theorem plain_destroying (me : ThreadKey) (destroyed : Nat) (after : Then) (slots : List PoolSlot) :
    Plain (destroying me destroyed after slots) := by
  cases slots with
  | nil => exact plain_next after destroyed
  | cons slot rest => exact plain_go trivial fun _ => rfl

section Steps

variable {p p' : PoolInner} {pc pc' : Pc} {next : Next Pc Answer} {held : Multiset Nat}

theorem Passes.step (h : Passes p p' held (next.holds hand fun _ => 0)) (hn : Plain next)
    (hpc : Holds pc held)
    (hs : p'.inFlight = p.inFlight ∧ p'.reading = p.reading ∧ p'.checkedOut = p.checkedOut) :
    Step p p' pc next :=
  ⟨hpc.hand ▸ h, .quiet hs.1 hs.2.1 hs.2.2 hpc.lowering hn.lowering, hn.valid⟩

/-- Only flags of the Pool change. -/
theorem Step.flags (hn : Plain next) (hpc : Holds pc (next.holds hand fun _ => 0))
    (hp : p' = { p with
      requestEnded := p'.requestEnded, closed := p'.closed, liveWorkers := p'.liveWorkers }) :
    Step p p' pc next := by
  rw [hp]
  exact Passes.step (.moves rfl rfl rfl rfl rfl) hn hpc ⟨rfl, rfl, rfl⟩

/-- The operation goes on with the slots it had. -/
theorem Step.goes (hv : Valid pc')
    (h : ∀ key, (hand pc, lowering key pc, lowering key pc') = (hand pc', 0, 0)) :
    Step p p pc (.go pc') := by
  refine .flags ⟨fun key => ?_, valid_go hv⟩ (fun key => ?_) rfl
  · exact congrArg (·.2.2) (h key)
  · exact congrArg (fun x => (x.1, x.2.1)) (h key)

/-- An operation that holds no slot ends. -/
theorem Step.ends {answer : Answer} (hpc : Holds pc 0) : Step p p pc (.ret answer) :=
  .flags (plain_ret answer) hpc rfl

variable {unit : Nat} {me key : ThreadKey} {tryOnly : Bool} {slot : PoolSlot}
  {deque slots : List PoolSlot} {destroyed : Nat} {after : Then}

/-- The operation refunds one of the slots it had. -/
theorem Step.refund (hn : Plain next) (hpc : Holds pc ({unit} + next.holds hand fun _ => 0)) :
    Step p (p.releaseBudget [unit]) pc next := by
  refine Passes.step (.refunds unit rfl rfl rfl rfl ?_) hn hpc ⟨rfl, rfl, rfl⟩
  change here p + _ = here p + _ + _
  abel

/-- The operation takes slots off a deque. -/
theorem Step.taken (hd : units (p.dequeOf key) = units deque + units slots)
    (hn : next.holds hand (fun _ => 0) = units slots) (hp : Plain next) (hpc : Holds pc 0) :
    Step p (p.withDeque key deque) pc next := by
  refine Passes.step (.moves rfl rfl rfl rfl ?_) hp hpc ⟨rfl, rfl, rfl⟩
  rw [hn, add_zero, here_withDeque hd]

theorem Step.takenAll (hpc : Holds pc 0) :
    Step p (p.withDeque me []) pc (destroying me 0 after (p.dequeOf me)) :=
  .taken (zero_add _).symm (hand_destroying _ _ _) (plain_destroying _ _ _ _) hpc

/-! One lemma for each kind of operation that does more than go on. -/

/-- Whatever comes of `pc` is such a step. -/
def Steps (p : PoolInner) (pc : Pc) : Prop := ∀ out ∈ act pc p, Step p out.2 pc out.1

theorem sole_step (h : Step p p' pc next) : ∀ out ∈ [(next, p')], Step p out.2 pc out.1 :=
  List.forall_mem_singleton.mpr h

theorem next_step {outs : List (Next Pc Answer × PoolInner)} (h : Step p p' pc next)
    (hs : ∀ out ∈ outs, Step p out.2 pc out.1) :
    ∀ out ∈ (next, p') :: outs, Step p out.2 pc out.1 :=
  List.forall_mem_cons.mpr ⟨h, hs⟩

theorem tryAcquireLocal_steps : Steps p (.tryAcquireLocal me tryOnly) := by
  rintro ⟨next, p'⟩ hout
  dsimp only [act] at hout
  split at hout <;> cases sole_outcome hout
  · next slot rest hd =>
    have hmem : slot ∈ p.dequeOf me := hd ▸ List.mem_cons_self
    have hl : units (p.dequeOf me) = units rest + units [slot] := by
      rw [hd, units_cons, units_cons, units_nil, add_zero, add_comm]
    have ho : slot.owner = me := of_decide_eq_true (List.mem_filter.mp hmem).2
    exact .taken hl rfl (plain_go ho fun _ => rfl) fun _ => rfl
  · exact .goes trivial fun _ => rfl

theorem tryReserveBudget_steps : Steps p (.tryReserveBudget me tryOnly) := by
  refine forall_mem_ite (fun hr => ?_) fun _ => sole_step (.goes trivial fun _ => rfl)
  refine sole_step ?_
  refine Passes.step (.mints rfl hr rfl rfl rfl ?_) (plain_go trivial fun _ => rfl) (fun _ => rfl)
    ⟨rfl, rfl, rfl⟩
  change here p + {p.minted} = here p + 0 + {p.minted}
  rw [add_zero]

theorem track_steps : Steps p (.track me slot) := by
  refine forall_mem_ite (fun _ => List.forall_mem_nil _) fun _ => sole_step ?_
  refine ⟨.moves rfl rfl rfl rfl ?_, .handsOut rfl, Next.forall_pcs_ret _⟩
  have hu : units (p.checkedOut ++ [slot]) = units p.checkedOut + units [slot] := units_append
  change here p + units [slot] = units p.idle + units (p.checkedOut ++ [slot]) + 0
  rw [hu, here]
  abel

theorem saturated_steps : Steps p (.saturated me tryOnly) := by
  refine forall_mem_ite (fun _ => sole_step (.ends fun _ => rfl)) fun _ => ?_
  refine next_step (.ends fun _ => rfl) (next_step (.goes trivial fun _ => rfl) ?_)
  exact next_step (.ends fun _ => rfl)
    (next_step (.ends fun _ => rfl) (sole_step (.ends fun _ => rfl)))

/-- The handle lets go of a slot whose owner is still there. -/
theorem step_untrackLoad (hs : slot ∈ p.checkedOut)
    (hout : (next, p') = untrackLoad { p with checkedOut := p.checkedOut.erase slot } me slot) :
    Step p p' (.untrackLoad me unit) next := by
  have hu : units p.checkedOut = units [slot] + units (p.checkedOut.erase slot) :=
    units_perm (List.perm_cons_erase hs)
  have hm (q : PoolInner) (hid : q.idle = p.idle) (hc : q.checkedOut = p.checkedOut.erase slot) :
      here p + 0 = here q + units [slot] := by
    rw [here, here, hid, hc, hu]
    abel
  have ht : Tallies p p' (.untrackLoad me unit) next := .loads hs hout
  unfold untrackLoad at hout
  split at hout
  · split at hout <;> cases hout <;>
      exact ⟨.moves rfl rfl rfl rfl (hm _ rfl rfl), ht, valid_go trivial⟩
  · cases hout
    exact ⟨.moves rfl rfl rfl rfl (hm _ rfl rfl), ht, valid_go trivial⟩

theorem untrackLoad_steps (hok : ∀ slot ∈ p.orphaned, slot.unit ≠ unit) :
    Steps p (.untrackLoad me unit) := by
  rintro ⟨next, p'⟩ hout
  dsimp only [act] at hout
  split at hout
  · next slot hs =>
    exact step_untrackLoad (List.mem_of_find?_eq_some hs) (List.mem_singleton.mp hout)
  · split at hout
    · next slot hs =>
      -- not this handle: its owner would have to have exited
      have hunit : slot.unit = unit := by simpa using List.find?_some hs
      exact absurd hunit (hok slot (List.mem_of_find?_eq_some hs))
    · cases sole_outcome hout
      exact .ends fun _ => rfl

theorem park_steps : Steps p (.park slot) := by
  refine sole_step ?_
  refine Passes.step (.moves rfl rfl rfl rfl ?_) (plain_ret _) (fun _ => rfl) ⟨rfl, rfl, rfl⟩
  change here p + units [slot] = here (p.withDeque slot.owner _) + 0
  rw [here, here, units_withDeque, units_append, units_idle p slot.owner]
  change _ + units p.checkedOut + units [slot] = _ + (_ + units [slot]) + units p.checkedOut + 0
  abel

theorem take_steps (stale : Bool) : Steps p (.take me stale) := by
  refine sole_step ?_
  cases stale with
  | false => exact .takenAll fun _ => rfl
  | true =>
    have hsplit : units (p.dequeOf me) = units ((p.dequeOf me).dropWhile p.isStale) +
        units ((p.dequeOf me).takeWhile p.isStale) := by
      rw [add_comm, ← units_append, List.takeWhile_append_dropWhile]
    exact .taken hsplit (hand_destroying _ _ _) (plain_destroying _ _ _ _) fun _ => rfl

theorem destroy_steps : Steps p (.destroy me slots destroyed after) := by
  cases slots with
  | nil =>
    refine sole_step ?_
    exact .flags (plain_next _ _) (fun _ => Prod.ext (hand_next _ _).symm rfl) rfl
  | cons slot rest =>
    exact next_step (.goes trivial fun _ => rfl) (sole_step (.goes trivial fun _ => rfl))

theorem refundDestroyed_steps (bailed : Bool) :
    Steps p (.refundDestroyed me slot slots destroyed bailed after) := by
  refine sole_step ?_
  cases bailed with
  | true => exact .refund (plain_go trivial fun _ => rfl) fun _ => rfl
  | false =>
    refine .refund (plain_destroying _ _ _ _) fun _ => Prod.ext ?_ rfl
    rw [if_neg Bool.false_ne_true, hand_destroying]
    rfl

theorem putBack_steps : Steps p (.putBack me slots destroyed after) := by
  refine sole_step ?_
  refine Passes.step (.moves rfl rfl rfl rfl ?_) (plain_next after destroyed) (fun _ => rfl)
    ⟨rfl, rfl, rfl⟩
  rw [hand_next, here_putBack, add_zero]
  rfl

/-- The slots that an exiting thread leaves behind handles are as many as its count says. -/
theorem reclaim_steps (hc : me ∉ p.reading → flight p me = outOf me p.checkedOut) :
    Steps p (.reclaim me) := by
  refine forall_mem_ite (fun _ => List.forall_mem_nil _) fun hun => sole_step ?_
  have hl : flight p me = ((p.checkedOut.filter fun slot => slot.owner = me).map
      PoolSlot.unit).length := by
    rw [hc hun, outOf, List.countP_eq_length_filter, List.length_map]
  refine ⟨.moves rfl rfl rfl rfl ?_, .reclaims hun rfl rfl rfl fun _ => rfl, valid_go hl⟩
  rw [here, here, units_split me p.checkedOut]
  change _ + (_ + _) + 0 = _ + _ + units (p.checkedOut.filter fun slot => slot.owner = me)
  abel

theorem refundReclaimed_steps {count : UInt64} {units : List Nat}
    (hlength : count.toNat = units.length) : Steps p (.refundReclaimed me count units) := by
  refine forall_mem_ite (fun hz => sole_step ?_) fun hne => sole_step ?_
  · rw [hz] at hlength
    rw [List.length_eq_zero_iff.mp hlength.symm]
    exact .goes trivial fun _ => rfl
  · have hpos : 0 < count.toNat := Nat.pos_of_ne_zero fun h => hne (UInt64.toNat_inj.mp h)
    have hone : (1 : UInt64) ≤ count := UInt64.le_iff_toNat_le.mpr hpos
    cases units with
    | nil => exact absurd hlength (Nat.ne_of_gt hpos)
    | cons unit rest =>
      refine .refund (plain_go ?_ fun _ => rfl) fun _ => rfl
      change (count - 1).toNat = rest.length
      rw [UInt64.toNat_sub_of_le _ _ hone, hlength]
      rfl

theorem refundForgotten_steps : Steps p (.refundForgotten slots after) := by
  cases slots with
  | nil =>
    refine sole_step ?_
    exact .flags (plain_next _ _) (fun _ => Prod.ext (hand_next _ _).symm rfl) rfl
  | cons slot rest => exact sole_step (.refund (plain_go trivial fun _ => rfl) fun _ => rfl)

theorem close_steps (frees : Bool) : Steps p (.close me frees after) := by
  refine sole_step ?_
  cases frees with
  | true => exact .flags (plain_go trivial fun _ => rfl) (fun _ => rfl) rfl
  | false => exact .flags (plain_next _ _) (fun _ => Prod.ext (hand_next _ _).symm rfl) rfl

/-- **What a step can do**, where the handles of a thread that nobody is taking
off its count are as many as it says. -/
theorem act_step {returned : List Answer} {running : List Pc} (hv : Valid pc)
    (hok : Punctual ⟨p, running, returned⟩ pc)
    (hc : ∀ me, me ∉ p.reading → flight p me = outOf me p.checkedOut) : Steps p pc := by
  cases pc with
  | checkForeign me tryOnly | checkClosed me tryOnly =>
    exact forall_mem_ite (fun _ => sole_step (.ends fun _ => rfl))
      fun _ => sole_step (.goes trivial fun _ => rfl)
  | forgetRest =>
    rintro ⟨next, p'⟩ hout
    dsimp only [act] at hout
    split at hout <;> cases sole_outcome hout
    · exact .ends fun _ => rfl
    · exact .goes trivial fun _ => rfl
  | tryAcquireLocal me tryOnly => exact tryAcquireLocal_steps
  | tryReserveBudget me tryOnly => exact tryReserveBudget_steps
  | useCallables me unit =>
    exact next_step (.goes trivial fun _ => rfl) (sole_step (.goes trivial fun _ => rfl))
  | factory me unit =>
    exact next_step (.goes rfl fun _ => rfl)
      (next_step (.goes trivial fun _ => rfl) (sole_step (.goes trivial fun _ => rfl)))
  | track me slot => exact track_steps
  | refundFailed unit e | refundDead slot =>
    exact sole_step (.refund (plain_ret _) fun _ => rfl)
  | saturated me tryOnly => exact saturated_steps
  | untrackLoad me unit => exact untrackLoad_steps hok
  | untrackSub me slot =>
    exact sole_step
      ⟨.moves rfl rfl rfl rfl rfl, .lowers rfl rfl rfl, valid_go trivial⟩
  | route me slot =>
    exact forall_mem_ite (fun _ => sole_step (.goes trivial fun _ => rfl))
      fun _ => sole_step (.goes trivial fun _ => rfl)
  | park slot => exact park_steps
  | take me stale => exact take_steps stale
  | destroy me slots destroyed after => exact destroy_steps
  | refundDestroyed me slot rest destroyed bailed after => exact refundDestroyed_steps bailed
  | putBack me slots destroyed after => exact putBack_steps
  | register me | unregister me => exact sole_step (.flags (plain_ret _) (fun _ => rfl) rfl)
  | reclaim me => exact reclaim_steps (hc me)
  | refundReclaimed me count units => exact refundReclaimed_steps hv
  | forget key after =>
    exact sole_step 
      (.taken (zero_add _).symm rfl (plain_go trivial fun _ => rfl) fun _ => rfl)
  | refundForgotten slots after => exact refundForgotten_steps
  | closeAtEnd me =>
    refine sole_step ?_
    split
    · exact .flags (plain_ret _) (fun _ => rfl) rfl
    · exact .ends fun _ => rfl
  | close me frees after => exact close_steps frees
  | takeOwn me after => exact sole_step (.takenAll fun _ => rfl)

end Steps

/-! ## Whole runs -/

/-- The invariant: the gauge counts the reservations not refunded, and the counts the handles. -/
structure Sound (c : Config PoolInner Pc Answer) : Prop where
  size : c.shared.size.toNat = (here c.shared + c.inHands hand).card
  ledger : here c.shared + c.inHands hand + (c.shared.refunded : Multiset Nat) =
    Multiset.range c.shared.minted
  max : c.shared.size ≤ c.shared.maxSize
  counts : ∀ key, flight c.shared key = outOf key c.shared.checkedOut + c.inHands (lowering key)
  guards : ∀ key, c.shared.reading.count key = c.inHands (lowering key)
  pcs : ∀ pc ∈ c.running, Valid pc

theorem sound_start (maxSize : UInt64) (idleTimeout : Nat) (home : Option ThreadKey) :
    Sound (start maxSize idleTimeout home) where
  size := rfl
  ledger := rfl
  max := UInt64.le_iff_toNat_le.mpr (Nat.zero_le _)
  counts := fun _ => rfl
  guards := fun _ => rfl
  pcs := nofun

section Run

variable {c : Config PoolInner Pc Answer} {before after : List Pc} {pc : Pc}
  {next : Next Pc Answer} {p' : PoolInner}

/-- Handing on, making and refunding a reservation keep the gauge right. -/
theorem Sound.budget (h : Sound c) (hrunning : c.running = before ++ pc :: after)
    (hs : Passes c.shared p' (hand pc) (next.holds hand fun _ => 0)) {returned : List Answer} :
    let c' : Config PoolInner Pc Answer := ⟨p', before ++ next.pcs ++ after, returned⟩
    p'.size.toNat = (here p' + c'.inHands hand).card ∧
      here p' + c'.inHands hand + (p'.refunded : Multiset Nat) = Multiset.range p'.minted ∧
      p'.size ≤ p'.maxSize := by
  intro c'
  have hh : c'.inHands hand + hand pc = c.inHands hand + next.holds hand fun _ => 0 :=
    Config.inHands_act hrunning hand next p' returned
  generalize hand pc = h₀ at hs hh
  generalize next.holds hand (fun _ => 0) = h₁ at hs hh
  generalize c'.inHands hand = ha' at hh ⊢
  have hsize := h.size
  have hl := h.ledger
  have hmax := h.max
  generalize c.inHands hand = hands at hh hsize hl
  have ha : here p' + ha' + h₀ = here p' + h₁ + hands := by
    rw [add_assoc, hh]
    abel
  cases hs with
  | moves hm hsa hmi hr hu =>
    have ht : here p' + ha' = here c.shared + hands := by
      apply add_right_cancel (b := h₀)
      rw [ha, ← hu]
      abel
    rw [ht, hsa, hr, hmi, hm]
    exact ⟨hsize, hl, hmax⟩
  | mints hm hro hmo hmi hr hu =>
    have ht : here p' + ha' = here c.shared + hands + {c.shared.minted} := by
      apply add_right_cancel (b := h₀)
      rw [ha, hu]
      abel
    have hlt : c.shared.size.toNat < c.shared.maxSize.toNat := UInt64.lt_iff_toNat_lt.mp hro
    have hb := c.shared.maxSize.toNat_lt
    have hp : (c.shared.size + 1).toNat = c.shared.size.toNat + 1 := by
      rw [UInt64.toNat_add]
      exact Nat.mod_eq_of_lt (Nat.lt_of_le_of_lt hlt hb)
    refine ⟨?_, ?_, ?_⟩
    · rw [hmo, hp, hsize, ht, Multiset.card_add _ {c.shared.minted},
        Multiset.card_singleton]
    · rw [ht, hr, hmi, Multiset.range_succ, ← hl, ← Multiset.singleton_add]
      abel
    · rw [hmo, hm]
      exact UInt64.le_iff_toNat_le.mpr (hp ▸ hlt)
  | refunds unit hm hle hmi hr hu =>
    have ht : here c.shared + hands = here p' + ha' + {unit} := by
      apply add_right_cancel (b := h₀)
      rw [add_right_comm, hu, add_right_comm (here p' + ha'), ha]
      abel
    have hc : c.shared.size.toNat = (here p' + ha').card + 1 := by
      rw [hsize, ht, Multiset.card_add _ {unit}, Multiset.card_singleton]
    have hone : (1 : UInt64) ≤ c.shared.size :=
      UInt64.le_iff_toNat_le.mpr (by rw [hc]; exact Nat.le_add_left 1 _)
    have hminus : (c.shared.size - 1).toNat = (here p' + ha').card := by
      rw [UInt64.toNat_sub_of_le _ _ hone, hc]
      rfl
    refine ⟨?_, ?_, ?_⟩
    · rw [hle, hminus]
    · rw [hr, hmi, ← hl, ht, ← Multiset.coe_add]
      change _ + (_ + {unit}) = _
      abel
    · rw [hle, hm]
      refine UInt64.le_iff_toNat_le.mpr (Nat.le_trans ?_ (UInt64.le_iff_toNat_le.mp hmax))
      rw [hminus, hc]
      exact Nat.le_succ _

/-- Who lowers a count holds a slot. -/
theorem lowering_le (key : ThreadKey) (pc : Pc) : lowering key pc ≤ (hand pc).card := by
  unfold lowering
  split
  · split
    · exact Nat.le_refl 1
    · exact Nat.zero_le _
  · exact Nat.zero_le _

theorem sum_lowering_le (key : ThreadKey) (pcs : List Pc) :
    (pcs.map (lowering key)).sum ≤ (pcs.map hand).sum.card := by
  induction pcs with
  | nil => exact Nat.le_refl 0
  | cons pc pcs ih =>
    rw [List.map_cons, List.sum_cons, List.map_cons, List.sum_cons, Multiset.card_add]
    exact Nat.add_le_add (lowering_le key pc) ih

theorem outOf_le (key : ThreadKey) (slots : List PoolSlot) :
    outOf key slots ≤ (units slots).card := by
  rw [units, Multiset.coe_card, List.length_map]
  exact List.countP_le_length

/-- A thread that gets a handle has room in its count. -/
theorem Sound.room (h : Sound c) {me : ThreadKey} {slot : PoolSlot}
    (hrunning : c.running = before ++ .track me slot :: after) (key : ThreadKey) :
    flight c.shared key + 1 < 2 ^ 64 := by
  have hout := outOf_le key c.shared.checkedOut
  have hh : c.inHands hand =
      hand (.track me slot) + inOtherHands hand before after := Config.inHands_eq hrunning
  have hl : c.inHands (lowering key) = 0 + inOtherHands (lowering key) before after :=
    Config.inHands_eq hrunning
  have ho : inOtherHands (lowering key) before after ≤ (inOtherHands hand before after).card := by
    rw [inOtherHands, inOtherHands, Multiset.card_add]
    exact Nat.add_le_add (sum_lowering_le key before) (sum_lowering_le key after)
  have hone : (hand (.track me slot)).card = 1 := rfl
  have hsize := h.size
  have hlt := c.shared.size.toNat_lt
  have hc := h.counts key
  rw [hh, here, Multiset.card_add, Multiset.card_add, Multiset.card_add, hone] at hsize
  omega

theorem flight_update {p q : PoolInner} {me : ThreadKey} {n : Option UInt64}
    (h : q.inFlight = Function.update p.inFlight me n) (key : ThreadKey) :
    flight q key = if me = key then (n.getD 0).toNat else flight p key := by
  rw [flight, h, Function.update_apply]
  split
  · next hkey => rw [if_pos hkey.symm]
  · next hkey => rw [if_neg (Ne.symm hkey), flight]

theorem outOf_append (key : ThreadKey) (slots rest : List PoolSlot) :
    outOf key (slots ++ rest) = outOf key slots + outOf key rest := List.countP_append

theorem outOf_erase {slots : List PoolSlot} {slot : PoolSlot} (h : slot ∈ slots) (key : ThreadKey) :
    outOf key slots = outOf key (slots.erase slot) + if slot.owner = key then 1 else 0 := by
  rw [outOf, (List.perm_cons_erase h).countP_eq, List.countP_cons]
  simp only [decide_eq_true_eq]
  rfl

theorem outOf_filter (me key : ThreadKey) (slots : List PoolSlot) :
    outOf key (slots.filter fun slot => slot.owner ≠ me) =
      if key = me then 0 else outOf key slots := by
  rw [outOf, outOf, List.countP_filter]
  split
  · next hkey =>
    refine List.countP_eq_zero.mpr fun slot _ => ?_
    simp [hkey]
  · next hkey =>
    refine List.countP_congr fun slot _ => ?_
    simp only [Bool.and_eq_true, decide_eq_true_eq, and_iff_left_iff_imp]
    rintro rfl
    exact hkey

/-- Every kind of step keeps the counts of the threads right. -/
theorem Sound.tallied (h : Sound c) (hrunning : c.running = before ++ pc :: after)
    (hv : Valid pc) (hs : Tallies c.shared p' pc next) {returned : List Answer} (key : ThreadKey) :
    let c' : Config PoolInner Pc Answer := ⟨p', before ++ next.pcs ++ after, returned⟩
    flight p' key = outOf key p'.checkedOut + c'.inHands (lowering key) ∧
      p'.reading.count key = c'.inHands (lowering key) := by
  intro c'
  have hh : c'.inHands (lowering key) + lowering key pc =
      c.inHands (lowering key) + next.holds (lowering key) fun _ => 0 :=
    Config.inHands_act hrunning (lowering key) next p' returned
  have hc := h.counts key
  have hg := h.guards key
  generalize c'.inHands (lowering key) = ha' at hh ⊢
  cases hs with
  | quiet hf hr hch hb ha =>
    rw [hb, ha] at hh
    rw [flight, hf, hr, hch]
    exact ⟨by rw [← flight]; omega, by omega⟩
  | @handsOut me slot hp =>
    have hro := h.room hrunning key
    obtain rfl : slot.owner = me := hv
    have hsa : ha' = c.inHands (lowering key) := hh
    subst hp
    refine ⟨?_, hg.trans hsa.symm⟩
    change _ = outOf key (c.shared.checkedOut ++ [slot]) + ha'
    rw [outOf_append, hsa, flight_update rfl key]
    split
    · next hkey =>
      subst hkey
      have hone : outOf slot.owner [slot] = 1 := by simp [outOf]
      rw [Option.getD_some, UInt64.toNat_add]
      exact (Nat.mod_eq_of_lt hro).trans (by omega)
    · next hkey =>
      have hno : outOf key [slot] = 0 := by simp [outOf, hkey]
      omega
  | @loads me unit slot _ hsl hout =>
    have hco := outOf_erase hsl key
    have hse := outOf_erase hsl slot.owner
    rw [if_pos rfl] at hse
    have hown := h.counts slot.owner
    have hpos : 0 < flight c.shared slot.owner := by omega
    unfold untrackLoad at hout
    split at hout
    · next n hn =>
      split at hout
      · next hz =>
        have hcontra : flight c.shared slot.owner = 0 := by
          rw [flight, show c.shared.inFlight slot.owner = some n from hn, hz]
          rfl
        omega
      · cases hout
        have hlow : ha' + 0 = c.inHands (lowering key) + if slot.owner = key then 1 else 0 := hh
        refine ⟨?_, ?_⟩
        · change flight c.shared key = outOf key (c.shared.checkedOut.erase slot) + ha'
          omega
        · change (slot.owner :: c.shared.reading).count key = ha'
          rw [List.count_cons, hg]
          simp only [beq_iff_eq]
          omega
    · next hno =>
      have hcontra : flight c.shared slot.owner = 0 := by
        rw [flight, show c.shared.inFlight slot.owner = none from hno]
        rfl
      omega
  | @lowers me slot hf hr hch =>
    have hlow : ha' + (if slot.owner = key then 1 else 0) = c.inHands (lowering key) + 0 := hh
    have hfl := flight_update hf key
    rw [hch, hr]
    by_cases hkey : slot.owner = key
    · rw [if_pos hkey] at hlow hfl
      subst hkey
      rw [List.count_erase_self, hfl]
      refine ⟨?_, by omega⟩
      unfold flight at hc
      cases hn : c.shared.inFlight slot.owner with
      | none =>
        rw [hn, Option.getD_none, UInt64.toNat_zero] at hc
        omega
      | some n =>
        rw [hn, Option.getD_some] at hc
        have hone : (1 : UInt64) ≤ n := UInt64.le_iff_toNat_le.mpr (show 1 ≤ n.toNat by omega)
        rw [Option.map_some, Option.getD_some, UInt64.toNat_sub_of_le _ _ hone, hc]
        change _ - 1 = _
        omega
    · rw [if_neg hkey] at hlow hfl
      rw [List.count_erase_of_ne (Ne.symm hkey)]
      omega
  | @reclaims me _ hu hf hr hch ha =>
    rw [ha] at hh
    have hsa : ha' = c.inHands (lowering key) := hh
    rw [hch, hr, outOf_filter, flight_update hf key]
    refine ⟨?_, by omega⟩
    by_cases hkey : key = me
    · have hnobody : c.shared.reading.count key = 0 := List.count_eq_zero.mpr (hkey ▸ hu)
      rw [if_pos hkey.symm, if_pos hkey, Option.getD_none, UInt64.toNat_zero]
      omega
    · rw [if_neg (Ne.symm hkey), if_neg hkey]
      omega

/-- **Every punctual step keeps the invariant.** -/
theorem Sound.step {c' : Config PoolInner Pc Answer} (h : Sound c)
    (hf : machine.Fires Punctual c c') : Sound c' := by
  cases hf with
  | call k =>
    have hha : hand k.entry = 0 := by cases k <;> rfl
    have hlow : ∀ key, lowering key k.entry = 0 := by cases k <;> exact fun _ => rfl
    have hv : Valid k.entry := by cases k <;> trivial
    refine ⟨?_, ?_, h.max, fun key => ?_, fun key => ?_, forall_called h.pcs hv⟩
    · rw [machine, Config.inHands_called hha]
      exact h.size
    · rw [machine, Config.inHands_called hha]
      exact h.ledger
    · rw [machine, Config.inHands_called (hlow key)]
      exact h.counts key
    · rw [machine, Config.inHands_called (hlow key)]
      exact h.guards key
  | env d => exact ⟨h.size, h.ledger, h.max, h.counts, h.guards, h.pcs⟩
  | @act before after pc next p' hrunning hmet hout =>
    have hv : Valid pc := h.pcs pc (Config.mem_running hrunning)
    have hc : ∀ me, me ∉ c.shared.reading →
        flight c.shared me = outOf me c.shared.checkedOut := by
      intro me hu
      have hco := h.counts me
      have hg := h.guards me
      rw [List.count_eq_zero.mpr hu] at hg
      omega
    obtain ⟨hp, ht, hn⟩ := act_step hv hmet hc _ hout
    obtain ⟨hsize, hle, hmax⟩ := h.budget hrunning hp
    exact ⟨hsize, hle, hmax, fun key => (h.tallied hrunning hv ht key).1,
      fun key => (h.tallied hrunning hv ht key).2,
      forall_running (hrunning ▸ h.pcs) hn⟩

end Run

/-! ## What holds of the gauge -/

/-- The next step of the operation lowers the gauge. -/
def refunds : Pc → Bool
  | .refundFailed _ _ => true
  | .refundDead _ => true
  | .refundDestroyed _ _ _ _ _ _ => true
  | .refundReclaimed _ count _ => count != 0
  | .refundForgotten slots _ => !slots.isEmpty
  | _ => false

/-- What the gauge says is true: it counts the slots that are idle, behind a
handle, or in the hands of an operation that has yet to pass them on or to
refund them; it is within the cap; no reservation has been refunded twice; and
no refund that is due would take it below zero. -/
structure Exact (c : Config PoolInner Pc Answer) : Prop where
  size : c.shared.size.toNat = c.shared.idle.length + c.shared.checkedOut.length +
    (c.inHands hand).card
  max : c.shared.size ≤ c.shared.maxSize
  once : c.shared.refunded.Nodup
  noWrap : ∀ pc ∈ c.running, refunds pc = true → c.shared.size ≠ 0

/-- Who refunds holds what it refunds. -/
theorem hand_pos {pc : Pc} (hv : Valid pc) (h : refunds pc = true) : 0 < (hand pc).card := by
  cases pc with
  | refundFailed unit e | refundDead slot => exact Nat.one_pos
  | refundDestroyed me slot rest destroyed bailed after => exact Nat.succ_pos _
  | refundReclaimed me count units =>
    have hne : count ≠ 0 := by simpa [refunds] using h
    have hpos : 0 < count.toNat := Nat.pos_of_ne_zero fun hz => hne (UInt64.toNat_inj.mp hz)
    rw [show count.toNat = units.length from hv] at hpos
    exact hpos
  | refundForgotten slots after =>
    cases slots with
    | nil => cases h
    | cons slot rest => exact Nat.succ_pos _
  | _ => cases h

theorem Sound.exact {c : Config PoolInner Pc Answer} (h : Sound c) : Exact c where
  size := by
    have hsize := h.size
    rw [Multiset.card_add, here, Multiset.card_add, units, units, Multiset.coe_card,
      Multiset.coe_card, List.length_map, List.length_map] at hsize
    exact hsize
  max := h.max
  once := by
    have hle : (c.shared.refunded : Multiset Nat) ≤ Multiset.range c.shared.minted := by
      rw [← h.ledger]
      exact Multiset.le_add_left _ _
    exact Multiset.coe_nodup.mp (Multiset.nodup_of_le hle (Multiset.nodup_range _))
  noWrap := by
    intro pc hpc hr hz
    obtain ⟨before, after, hrunning⟩ := List.append_of_mem hpc
    have hh : c.inHands hand = hand pc + inOtherHands hand before after :=
      Config.inHands_eq hrunning
    have hpos := hand_pos (h.pcs pc hpc) hr
    have hsize := h.size
    rw [hz, hh, Multiset.card_add, Multiset.card_add] at hsize
    change 0 = _ at hsize
    omega

/-- **The gauge of a Pool.** In every interleaving of acquires, releases on any
thread, failing factories, evictions, ends of requests and exits of threads in
which no handle is released after its owner has exited while it was out, the
gauge counts the slots there are, stays within the cap and above zero, and every
reservation is refunded at most once. -/
theorem gauge_exact (maxSize : UInt64) (idleTimeout : Nat) (home : Option ThreadKey)
    {moves : List (Move Call Nat)} {c : Config PoolInner Pc Answer}
    (hok : machine.Along Punctual (start maxSize idleTimeout home) moves)
    (hrun : machine.run (start maxSize idleTimeout home) moves = some c) : Exact c :=
  (machine.run_invariant (fun _ _ h hf => Sound.step h hf)
    (sound_start maxSize idleTimeout home) hok hrun).exact

/-! ## Two schedules -/

/-- Thread 1 takes the one slot and exits with it. -/
def exitWhileOut : List (Move Call Nat) :=
  [.call (.registerWorker 1), .act 0 0, .call (.acquire 1 true), .act 0 0, .act 0 0, .act 0 0,
    .act 0 0, .act 0 0, .act 0 0, .act 0 0, .call (.unregisterWorker 1), .act 0 0, .act 0 0,
    .act 0 0, .act 0 0, .act 0 0, .act 0 0]

/-- `Punctual` as a test. -/
def punctualCheck (c : Config PoolInner Pc Answer) : Pc → Bool
  | .untrackLoad _ unit => c.shared.orphaned.all fun slot => slot.unit != unit
  | _ => true

theorem punctual_of_check (c : Config PoolInner Pc Answer) (pc : Pc)
    (h : punctualCheck c pc = true) : Punctual c pc := by
  cases pc with
  | untrackLoad me unit =>
    intro slot hs
    exact bne_iff_ne.mp (List.all_eq_true.mp h slot hs)
  | _ => trivial

theorem gauge_exact_exitWhileOut :
    ∃ c, machine.run (start 1 10 none) exitWhileOut = some c ∧ Exact c ∧
      c.shared.refunded = [0] := by
  obtain ⟨c, hrun, hr⟩ : ∃ c, machine.run (start 1 10 none) exitWhileOut = some c ∧
      (c.shared.refunded == [0]) = true :=
    (Option.any_eq_true _ _).mp (show (machine.run (start 1 10 none) exitWhileOut).any
      (fun c => c.shared.refunded == [0]) = true by decide +kernel)
  have hok : machine.Along Punctual (start 1 10 none) exitWhileOut :=
    Machine.along_of_check punctual_of_check
      (show machine.checkAlong punctualCheck (start 1 10 none) exitWhileOut = true by
        decide +kernel)
  exact ⟨c, hrun, gauge_exact 1 10 none hok hrun, beq_iff_eq.mp hr⟩

/-- The handle is dropped on thread 2 after that: the slot is refunded again, and
the gauge goes below zero. -/
theorem late_release_wraps_gauge : ∃ c, machine.run (start 1 10 none)
        (exitWhileOut ++ [Move.call (Call.release 2 0), .act 0 0, .act 0 0, .act 0 0]) = some c ∧
      c.running = [] ∧ c.shared.size.toNat = 2 ^ 64 - 1 ∧ c.shared.refunded = [0, 0] := by
  obtain ⟨c, hrun, hend⟩ : ∃ c, machine.run (start 1 10 none)
      (exitWhileOut ++ [Move.call (Call.release 2 0), .act 0 0, .act 0 0, .act 0 0]) = some c ∧
      (c.running.isEmpty && c.shared.size.toNat == 2 ^ 64 - 1 &&
        c.shared.refunded == [0, 0]) = true :=
    (Option.any_eq_true _ _).mp (by decide +kernel)
  simp only [Bool.and_eq_true, List.isEmpty_iff, beq_iff_eq] at hend
  exact ⟨c, hrun, hend.1.1, hend.1.2, hend.2⟩

end OxPhp.Shared.Pool
