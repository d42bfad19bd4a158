import Mathlib.Data.List.Sort
import OxPhp.Async.Promises
import OxPhp.Lib.Effect
import OxPhp.Shared.Portbuf

/-!
# Waiting for several promises inside a fiber

`await_race_in_fiber` and `await_any_in_fiber` of `php/sapi.rs`: poll every
promise of the list, then yield the fiber for one cycle of the scheduler, until an
answer, a deadline or the end of the fiber.
-/

namespace OxPhp.Async

open ByteStr Effect
open OxPhp.Shared (SharedId Zval portableDeserialize)

structure AggregateRejection where
  promiseId : Nat
  exceptionClass : Bytes
  message : Bytes
  deriving DecidableEq

inductive Answer where
  /-- 0, with the winner and what is written to the return value. -/
  | won (id : Nat) (value : Option Zval)
  /-- -1, with the exception that is left in the bridge, if one is. -/
  | failed (exception : Option (Bytes × Bytes))
  /-- -2 -/
  | timeout (rejections : List AggregateRejection) (pending : List Nat)
  /-- -3 -/
  | allRejected (rejections : List AggregateRejection)
  /-- -4: unknown or already awaited. -/
  | unknown (id : Nat)
  /-- `OXPHP_FIBER_UNWIND` -/
  | unwind

inductive Yielded where
  | poll
  | cancelled
  | unwinding
  deriving DecidableEq

/-- What goes on around a call, at each point of time: a point for every poll and
every yield. -/
structure Surroundings (ρ κ : Type) where
  recv : Nat → ρ → Channel
  bailoutHeldBack : Nat → Bool
  deadlinePassed : Nat → Bool
  yieldOrCancel : Nat → Yielded
  /-- What the other fibers of the thread do to the tables during a yield. -/
  others : Nat → PromiseTables ρ κ → PromiseTables ρ κ
  wrapperNew : UInt8 → SharedId → Option Nat

/-- The state of a call.  `await_race` has no use for the last two. -/
structure Poller (ρ κ : Type) where
  tables : PromiseTables ρ κ
  clock : Nat
  remaining : List Nat
  collected : List AggregateRejection

section Loops

variable {ρ κ : Type} (w : Surroundings ρ κ)

abbrev PollM (ρ κ : Type) := EStateM Answer (Poller ρ κ)

/-- Ask for the answer of a promise and, where there is one, consume it and
release what the task held. -/
def poll (missing : Bytes) (id : Nat) : PollM ρ κ (Option AsyncResult) := do
  let s ← get
  match s.tables.awaitIsReady (w.recv s.clock) id with
  | (false, tables) =>
    set { s with tables, clock := s.clock + 1 }
    return none
  | (true, tables) =>
    match tables.takeReadyResult id with
    | (none, tables) =>
      set { s with tables, clock := s.clock + 1 }
      throw (.failed (some (asyncException, missing)))
    | (some result, tables) =>
      set { s with tables := (tables.cleanupPromise id).2, clock := s.clock + 1 }
      if w.bailoutHeldBack s.clock then throw .unwind
      return some result

def AsyncResult.exception (result : AsyncResult) : Option (Bytes × Bytes) := do
  let cls ← result.exceptionClass
  let msg ← result.exceptionMessage
  return (cls, msg)

def fulfilled (id : Nat) (result : AsyncResult) : Answer :=
  match result.serializedValue with
  | none => .won id none
  | some [] => .won id none
  | some buf =>
    match portableDeserialize w.wrapperNew buf with
    | some value => .won id (some value)
    | none => .failed none

def yieldOrCancel : PollM ρ κ Unit := do
  let s ← get
  match w.yieldOrCancel s.clock with
  | .poll => set { s with tables := w.others s.clock s.tables, clock := s.clock + 1 }
  | .cancelled => throw (.failed (some (asyncException, str "Async task cancelled")))
  | .unwinding => throw .unwind

/-! ## The first to settle -/

def raceScan : List Nat → PollM ρ κ Unit
  | [] => pure ()
  | id :: ids => do
    match ← poll w (str "await_race: winner result missing") id with
    | none => raceScan ids
    | some result =>
      if result.success then throw (fulfilled w id result)
      else throw (.failed result.exception)

def raceCycle (ids : List Nat) : PollM ρ κ Unit := do
  raceScan w ids
  let s ← get
  if w.deadlinePassed s.clock then throw (.timeout [] [])
  yieldOrCancel w

def awaitRaceInFiber (ids : List Nat) (cycles : Nat) (tables : PromiseTables ρ κ) :
    Option (Answer × Poller ρ κ) :=
  loop (raceCycle w ids) cycles ⟨tables, 0, ids, []⟩

/-! ## The first to fulfil -/

def rejection (id : Nat) (result : AsyncResult) : AggregateRejection where
  promiseId := id
  exceptionClass := result.exceptionClass.getD asyncException
  message := result.exceptionMessage.getD (str "promise rejected without message")

def position (ids : List Nat) (id : Nat) : Nat := ids.length - 1 - ids.reverse.idxOf id

/-- `push_aggregate_rejections`: in the order of the list. -/
def aggregate (collected : List AggregateRejection) (ids : List Nat) : List AggregateRejection :=
  collected.insertionSort fun a b => position ids a.promiseId ≤ position ids b.promiseId

/-- One scan, with the ids that are still to be polled after it. -/
def anyScan : List Nat → PollM ρ κ (List Nat)
  | [] => pure []
  | id :: remaining => do
    match ← poll w (str "await_any: result missing") id with
    | none => return id :: (← anyScan remaining)
    | some result =>
      if result.success then throw (fulfilled w id result)
      modify fun s => { s with collected := s.collected ++ [rejection id result] }
      anyScan remaining

def anyCycle (ids : List Nat) : PollM ρ κ Unit := do
  let remaining ← anyScan w (← get).remaining
  modify fun s => { s with remaining }
  let s ← get
  if remaining.isEmpty then throw (.allRejected (aggregate s.collected ids))
  if w.deadlinePassed s.clock then throw (.timeout (aggregate s.collected ids) remaining)
  yieldOrCancel w

def awaitAnyInFiber (ids : List Nat) (cycles : Nat) (tables : PromiseTables ρ κ) :
    Option (Answer × Poller ρ κ) :=
  loop (anyCycle w ids) cycles ⟨tables, 0, ids, []⟩

/-! ## The callbacks -/

inductive FanOut where
  | race
  | any
  deriving DecidableEq

/-- `await_race_dispatch_callback` and `await_any_dispatch_callback`, inside a
fiber; nothing if the call has not returned after so many cycles. -/
def dispatchInFiber (kind : FanOut) (ids : List Nat) (cycles : Nat) (tables : PromiseTables ρ κ) :
    Option Answer :=
  if ids.isEmpty then some (.failed none)
  else
    match kind with
    | .race => (awaitRaceInFiber w ids cycles tables).map (·.1)
    | .any => (awaitAnyInFiber w ids cycles tables).map (·.1)

/-- Put receivers back. -/
def restoreAll (current : FiberId) (taken : List (Nat × ρ)) (tables : PromiseTables ρ κ) :
    PromiseTables ρ κ :=
  taken.foldl (fun tables e => tables.storePromise current e.1 e.2) tables

/-- How both callbacks begin outside a fiber: take every receiver, or put back
those that were taken and name the id for which there is none. -/
def takeReceivers (current : FiberId) :
    List Nat → List (Nat × ρ) → PromiseTables ρ κ → Except Nat (List (Nat × ρ)) × PromiseTables ρ κ
  | [], taken, tables => (.ok taken, tables)
  | id :: ids, taken, tables =>
    match tables.takePromise id with
    | (some rx, tables) => takeReceivers current ids (taken ++ [(id, rx)]) tables
    | (none, tables) => (.error id, restoreAll current taken tables)

end Loops

/-! ## A poll -/

section Polls

open PromiseTables

variable {ρ κ : Type} {w : Surroundings ρ κ} {s : Poller ρ κ}

/-- What a poll takes out of the tables: the promise it found an answer for. -/
structure Consumes (id : Nat) (tables tables' : PromiseTables ρ κ) : Prop where
  others : SameBut id tables tables'
  ready : tables'.readyResults.lookup id = none
  map : tables.Apart → tables'.promiseMap.lookup id = none

/-- What is left of the state after a poll. -/
structure Polled (s s' : Poller ρ κ) : Prop where
  clock : s'.clock = s.clock + 1
  remaining : s'.remaining = s.remaining

/-- **A poll.**  The arm for a missing result is never taken. -/
theorem poll_ends (missing : Bytes) (id : Nat) (s : Poller ρ κ) : Ends (poll w missing id) s
      (fun answer s' => Polled s s' ∧
        ((answer = none ∧ s'.tables = s.tables ∧ s.tables.Unready (w.recv s.clock) id) ∨
          ∃ result, answer = some result ∧ s.tables.Answered (w.recv s.clock) id result ∧
            Consumes id s.tables s'.tables))
      (fun answer _ => answer = .unwind ∧ w.bailoutHeldBack s.clock = true) := by
  refine Ends.bind ?_
  change Ends (match s.tables.awaitIsReady (w.recv s.clock) id with
    | (false, tables) => _
    | (true, tables) => _) s _ _
  rcases awaitIsReady_cases s.tables (w.recv s.clock) id with
    ⟨hu, hp⟩ | ⟨result, tables, ha, hp, hr, hs, hg⟩
  · rw [hp]
    exact ⟨⟨rfl, rfl⟩, .inl ⟨rfl, rfl, hu⟩⟩
  · rw [hp]
    dsimp only
    unfold takeReadyResult
    rw [hr]
    dsimp only
    have hc : Consumes id s.tables
        ({ tables with readyResults := tables.readyResults.erase id }.cleanupPromise id).2 := by
      refine ⟨?_, AList.lookup_erase _ _, hg⟩
      intro other ho
      obtain ⟨hmap, hr⟩ := hs other ho
      exact ⟨hmap, (AList.lookup_erase_ne ho).trans hr⟩
    cases hh : w.bailoutHeldBack s.clock with
    | true => exact ⟨rfl, rfl⟩
    | false => exact ⟨⟨rfl, rfl⟩, .inr ⟨result, rfl, ha, hc⟩⟩

end Polls

/-! ## Returning -/

section Returns

open PromiseTables

variable {ρ κ : Type} {w : Surroundings ρ κ} {s : Poller ρ κ} {ids : List Nat}
  {tables : PromiseTables ρ κ}

def Answer.refuses : Answer → Bool
  | .unknown _ => true
  | _ => false

/-- What ends a scan: a winner, a failure or the end of the fiber. -/
def Answer.endsScan : Answer → Bool
  | .won .. => true
  | .failed _ => true
  | .unwind => true
  | _ => false

theorem Answer.refuses_of_endsScan {answer : Answer} (h : answer.endsScan = true) :
    answer.refuses = false := by
  cases answer with
  | unknown id => cases h
  | _ => rfl

theorem fulfilled_endsScan (id : Nat) (result : AsyncResult) :
    (fulfilled w id result).endsScan = true := by
  unfold fulfilled
  split
  · rfl
  · rfl
  · split <;> rfl

theorem yieldOrCancel_ends (s : Poller ρ κ) : Ends (yieldOrCancel w) s
      (fun _ s' => s' = { s with tables := w.others s.clock s.tables, clock := s.clock + 1 })
      (fun answer _ => answer.refuses = false) := by
  refine Ends.bind ?_
  change Ends (match w.yieldOrCancel s.clock with
    | .poll => _
    | .cancelled => _
    | .unwinding => _) s _ _
  cases w.yieldOrCancel s.clock with
  | poll => exact (rfl : _ = _)
  | cancelled | unwinding => exact ends_throw rfl

/-- From `T` on the promise has settled, if there is one. -/
def Surroundings.SettledFrom (w : Surroundings ρ κ) (T : Nat) (tables : PromiseTables ρ κ)
    (id : Nat) : Prop :=
  ∀ rx, tables.promiseMap.lookup id = some rx → ∀ t, T ≤ t → w.recv t rx ≠ .empty

variable {T id : Nat} {remaining : List Nat} {result : AsyncResult}

theorem lt_of_unready {t : Nat} (hk : tables.Known id) (hs : w.SettledFrom T tables id)
    (hu : tables.Unready (w.recv t) id) : t < T := by
  obtain ⟨hr, he⟩ := hu
  rcases known_iff_lookup.mp hk with ⟨rx, hrx⟩ | ⟨result, hre⟩
  · by_contra hl
    exact hs rx hrx t (Nat.le_of_not_lt hl) (he rx hrx)
  · rw [hr] at hre
    cases hre

/-- No timeout, and no other fiber touches a promise of the list. -/
structure Surroundings.Discreet (w : Surroundings ρ κ) (ids : List Nat) : Prop where
  noTimeout : ∀ t, w.deadlinePassed t = false
  others : ∀ t tables, ∀ id ∈ ids, SameOf tables (w.others t tables) id

/-! ### Race -/

theorem raceScan_ends (ids : List Nat) (s : Poller ρ κ) : Ends (raceScan w ids) s
      (fun _ s' => s'.tables = s.tables ∧ s.clock ≤ s'.clock ∧
        ∀ id ∈ ids, ∃ t, s.clock ≤ t ∧ s.tables.Unready (w.recv t) id)
      (fun answer _ => answer.endsScan = true) := by
  induction ids generalizing s with
  | nil => exact ends_pure ⟨rfl, le_rfl, fun id hid => absurd hid List.not_mem_nil⟩
  | cons id ids ih =>
    refine Ends.bind ((poll_ends _ id s).imp ?_ ?_)
    · rintro answer s₁ ⟨hp, ⟨rfl, hta, hu⟩ | ⟨result, rfl, -, -⟩⟩
      · refine (ih s₁).imp ?_ fun _ _ h => h
        rintro _ s' ⟨ht', hc, hr⟩
        have hp := hp.clock
        rw [hta] at ht' hr
        refine ⟨ht', by omega, ?_⟩
        intro x hx
        rcases List.mem_cons.mp hx with rfl | hx
        · exact ⟨s.clock, le_rfl, hu⟩
        · obtain ⟨t, ht, hx⟩ := hr x hx
          exact ⟨t, by omega, hx⟩
      · dsimp only
        split
        · exact ends_throw (fulfilled_endsScan id result)
        · exact ends_throw rfl
    · rintro answer s₁ ⟨rfl, -⟩
      rfl

theorem raceCycle_ends (ids : List Nat) (s : Poller ρ κ) : Ends (raceCycle w ids) s
      (fun _ s' => (∃ t, s'.tables = w.others t s.tables) ∧ s.clock < s'.clock ∧
        ∀ id ∈ ids, ∃ t, s.clock ≤ t ∧ s.tables.Unready (w.recv t) id)
      (fun answer _ => answer.refuses = false) := by
  refine Ends.bind ((raceScan_ends ids s).imp ?_ fun _ _ => Answer.refuses_of_endsScan)
  rintro _ s₁ ⟨ht, hc, hu⟩
  refine Ends.bind ?_
  change Ends (if w.deadlinePassed s₁.clock then _ else _) s₁ _ _
  split
  · exact ends_throw rfl
  · refine (yieldOrCancel_ends s₁).imp ?_ fun _ _ h => h
    rintro _ s' rfl
    refine ⟨⟨s₁.clock, by rw [ht]⟩, ?_, hu⟩
    dsimp only
    omega

theorem race_returns (hw : w.Discreet ids) (hids : ids ≠ [])
    (hk : ∀ id ∈ ids, tables.Known id) (hse : ∀ id ∈ ids, w.SettledFrom T tables id) :
    (awaitRaceInFiber w ids (T + 1) tables).isSome := by
  -- the promises of the list stay as they were before the call
  let I : Poller ρ κ → Prop := fun s => ∀ id ∈ ids, SameOf tables s.tables id
  have hc : ∀ s, I s → Ends (raceCycle w ids) s
      (fun _ s' => I s' ∧ s.clock < s'.clock ∧ s.clock < T) fun _ _ => True := by
    intro s hs
    refine (raceCycle_ends ids s).imp ?_ fun _ _ _ => trivial
    rintro _ s' ⟨⟨t₀, hta⟩, hcl, hu⟩
    refine ⟨?_, hcl, ?_⟩
    · intro id hid
      rw [hta]
      exact (hs id hid).trans (hw.others t₀ s.tables id hid)
    · obtain ⟨id, hid⟩ := List.exists_mem_of_ne_nil ids hids
      obtain ⟨t, ht, hu⟩ := hu id hid
      have hlt := lt_of_unready (hk id hid) (hse id hid) ((hs id hid).unready hu)
      omega
  exact loop_isSome hc (fun id hid => ⟨rfl, rfl⟩) (by dsimp only; omega)

/-! ### Any -/

/-- A scan without a winner keeps promises that have not settled, and touches no
others than it was given. -/
structure Scanned (w : Surroundings ρ κ) (remaining : List Nat) (s : Poller ρ κ) (kept : List Nat)
    (s' : Poller ρ κ) : Prop where
  sublist : kept.Sublist remaining
  clock : s.clock ≤ s'.clock
  outside : ∀ id, id ∉ remaining → SameOf s.tables s'.tables id
  kept : ∀ id ∈ kept, SameOf s.tables s'.tables id ∧
    ∃ t, s.clock ≤ t ∧ s.tables.Unready (w.recv t) id

theorem anyScan_ends (hn : remaining.Nodup) (s : Poller ρ κ) :
    Ends (anyScan w remaining) s (fun kept s' => Scanned w remaining s kept s')
      fun _ _ => True := by
  induction remaining generalizing s with
  | nil => exact ends_pure ⟨.slnil, le_rfl, fun _ _ => ⟨rfl, rfl⟩, fun id hid => by cases hid⟩
  | cons id remaining ih =>
    obtain ⟨hid, hn⟩ := List.nodup_cons.mp hn
    refine Ends.bind ((poll_ends _ id s).imp ?_ fun _ _ _ => trivial)
    rintro answer s₁ ⟨hp, ⟨rfl, hta, hu⟩ | ⟨result, rfl, -, hc⟩⟩
    · refine Ends.bind ((ih hn s₁).imp ?_ fun _ _ h => h)
      intro kept s' hs
      have hcl := hs.clock
      have hp := hp.clock
      have ho := hs.outside
      have hk := hs.kept
      rw [hta] at ho hk
      refine ends_pure ⟨hs.sublist.cons_cons id, by omega, ?_, ?_⟩
      · intro x hx
        exact ho x fun h => hx (List.mem_cons_of_mem _ h)
      · intro x hx
        rcases List.mem_cons.mp hx with rfl | hx
        · exact ⟨ho x hid, s.clock, le_rfl, hu⟩
        · obtain ⟨hsa, t, ht, hx⟩ := hk x hx
          exact ⟨hsa, t, by omega, hx⟩
    · dsimp only
      split
      · exact ends_throw trivial
      · refine Ends.bind (ends_modify ((ih hn _).imp ?_ fun _ _ h => h))
        intro kept s' hs
        have hcl : s₁.clock ≤ s'.clock := hs.clock
        have hp := hp.clock
        refine ⟨hs.sublist.cons id, by omega, ?_, ?_⟩
        · intro x hx
          rw [List.mem_cons, not_or] at hx
          obtain ⟨hne, hx⟩ := hx
          exact (hc.others x hne).trans (hs.outside x hx)
        · intro x hx
          have hne : x ≠ id := by
            rintro rfl
            exact hid (hs.sublist.subset hx)
          obtain ⟨hsa, t, ht, hu⟩ := hs.kept x hx
          have hb := hc.others x hne
          exact ⟨hb.trans hsa, t, by change s₁.clock ≤ t at ht; omega, hb.unready hu⟩

theorem anyCycle_ends {Q : List Nat → Poller ρ κ → Prop} {E : Answer → Poller ρ κ → Prop}
    (ids : List Nat) (s : Poller ρ κ) (hE : ∀ answer s', answer.refuses = false → E answer s')
    (hs : Ends (anyScan w s.remaining) s Q E) : Ends (anyCycle w ids) s
      (fun _ s' => ∃ kept s₁, Q kept s₁ ∧ kept ≠ [] ∧ s'.remaining = kept ∧
        s'.tables = w.others s₁.clock s₁.tables ∧ s'.clock = s₁.clock + 1) E := by
  refine Ends.bind ?_
  change Ends (anyScan w s.remaining >>= _) s _ E
  refine Ends.bind (hs.imp ?_ fun _ _ h => h)
  intro kept s₁ hk
  refine Ends.bind (ends_modify (Ends.bind ?_))
  change Ends (if kept.isEmpty = true then _ else _) _ _ E
  split
  · exact ends_throw (hE _ _ rfl)
  · next hso =>
    change Ends (if w.deadlinePassed s₁.clock = true then _ else _) _ _ E
    split
    · exact ends_throw (hE _ _ rfl)
    · refine (yieldOrCancel_ends _).imp ?_ fun _ _ h => hE _ _ h
      rintro _ s' rfl
      exact ⟨kept, s₁, hk, by simpa using hso, rfl, rfl, rfl⟩

theorem any_returns (hw : w.Discreet ids) (hn : ids.Nodup)
    (hk : ∀ id ∈ ids, tables.Known id) (hs : ∀ id ∈ ids, w.SettledFrom T tables id) :
    (awaitAnyInFiber w ids (T + 1) tables).isSome := by
  -- the promises that are left stay as they were before the call
  let I : Poller ρ κ → Prop := fun s =>
    s.remaining.Sublist ids ∧ ∀ id ∈ s.remaining, SameOf tables s.tables id
  have hc : ∀ s, I s → Ends (anyCycle w ids) s
      (fun _ s' => I s' ∧ s.clock < s'.clock ∧ s.clock < T) fun _ _ => True := by
    rintro s ⟨hsu, hsa⟩
    refine (anyCycle_ends ids s (fun _ _ _ => trivial)
      (anyScan_ends (hn.sublist hsu) s)).imp ?_ fun _ _ h => h
    rintro _ s' ⟨kept, s₁, hsc, hso, hr, hta, hcl⟩
    have hp := hsc.clock
    refine ⟨⟨?_, ?_⟩, by omega, ?_⟩
    · rw [hr]
      exact hsc.sublist.trans hsu
    · intro id hid
      rw [hr] at hid
      have hl := hsc.sublist.subset hid
      rw [hta]
      exact ((hsa id hl).trans (hsc.kept id hid).1).trans
        (hw.others _ _ id (hsu.subset hl))
    · obtain ⟨id, hid⟩ := List.exists_mem_of_ne_nil kept hso
      obtain ⟨-, t, ht, hu⟩ := hsc.kept id hid
      have hl := hsc.sublist.subset hid
      have hmem := hsu.subset hl
      have hlt := lt_of_unready (hk id hmem) (hs id hmem)
        ((hsa id hl).unready hu)
      omega
  exact loop_isSome hc ⟨List.Sublist.refl ids, fun id _ => ⟨rfl, rfl⟩⟩ (by dsimp only; omega)

theorem anyScan_of_success (hid : id ∈ remaining) (s : Poller ρ κ)
    (hr : s.tables.readyResults.lookup id = some result) (hs : result.success = true) :
    Ends (anyScan w remaining) s (fun _ _ => False) fun _ _ => True := by
  induction remaining generalizing s with
  | nil => cases hid
  | cons x remaining ih =>
    refine Ends.bind ((poll_ends _ x s).imp ?_ fun _ _ _ => trivial)
    rintro answer s₁ ⟨-, ⟨rfl, ht, hu⟩ | ⟨found, rfl, ha, hc⟩⟩
    · have hne : id ≠ x := by
        rintro rfl
        rw [hu.1] at hr
        cases hr
      refine Ends.bind ((ih ((List.mem_cons.mp hid).resolve_left hne) s₁ ?_).imp
        (fun _ _ h => h.elim) fun _ _ h => h)
      rw [ht]
      exact hr
    · dsimp only
      split
      · exact ends_throw trivial
      · next hf =>
        have hne : id ≠ x := by
          rintro rfl
          rcases ha with hfo | ⟨hn, -⟩
          · rw [hr] at hfo
            cases hfo
            exact hf hs
          · rw [hr] at hn
            cases hn
        refine Ends.bind (ends_modify (ih ((List.mem_cons.mp hid).resolve_left hne) _ ?_))
        exact (hc.others id hne).2.trans hr

theorem any_returns_of_success (hid : id ∈ ids)
    (hr : tables.readyResults.lookup id = some result) (hs : result.success = true) :
    (awaitAnyInFiber w ids 1 tables).isSome := by
  let I : Poller ρ κ → Prop := fun s =>
    id ∈ s.remaining ∧ s.tables.readyResults.lookup id = some result
  have hc : ∀ s, I s → Ends (anyCycle w ids) s
      (fun _ s' => I s' ∧ s.clock < s'.clock ∧ s.clock < 0) fun _ _ => True := by
    rintro s ⟨hl, hlo⟩
    refine (anyCycle_ends ids s (fun _ _ _ => trivial)
      (anyScan_of_success hl s hlo hs)).imp ?_ fun _ _ h => h
    rintro _ s' ⟨kept, s₁, hf, -⟩
    exact hf.elim
  exact loop_isSome hc ⟨hid, hr⟩ (by dsimp only; omega)

end Returns

/-! ## Not returning -/

section Stuck

open PromiseTables

variable {ρ κ : Type} {w : Surroundings ρ κ} {s : Poller ρ κ} {ids : List Nat}
  {tables tables' : PromiseTables ρ κ}

/-- The fiber is resumed at every cycle and nothing comes in between; all tasks of
the list are gone. -/
def Surroundings.quiet (ρ κ : Type) : Surroundings ρ κ :=
  ⟨fun _ _ => .closed, fun _ => false, fun _ => false, fun _ => .poll, fun _ tables => tables,
    fun _ _ => none⟩

theorem discreet_quiet (ids : List Nat) : (Surroundings.quiet ρ κ).Discreet ids :=
  ⟨fun _ => rfl, fun _ _ _ _ => ⟨rfl, rfl⟩⟩

/-- Nothing has been added. -/
structure Fewer (tables' tables : PromiseTables ρ κ) : Prop where
  map : ∀ id rx, tables'.promiseMap.lookup id = some rx → tables.promiseMap.lookup id = some rx
  ready : ∀ id result, tables'.readyResults.lookup id = some result →
    tables.readyResults.lookup id = some result

variable {id : Nat} {remaining : List Nat}

theorem Fewer.known (h : Fewer tables' tables) (hk : tables'.Known id) : tables.Known id := by
  rw [known_iff_lookup] at *
  rcases hk with ⟨rx, hrx⟩ | ⟨result, hr⟩
  · exact .inl ⟨rx, h.map id rx hrx⟩
  · exact .inr ⟨result, h.ready id result hr⟩

theorem Fewer.apart (h : Fewer tables' tables) (ha : tables.Apart) : tables'.Apart := by
  intro id hr hmap
  rw [← AList.lookup_isSome, Option.isSome_iff_exists] at hr hmap
  obtain ⟨result, hre⟩ := hr
  obtain ⟨rx, hrx⟩ := hmap
  refine ha id ?_ ?_
  · rw [← AList.lookup_isSome, h.ready id result hre]
    rfl
  · rw [← AList.lookup_isSome, h.map id rx hrx]
    rfl

theorem Fewer.trans {tables'' : PromiseTables ρ κ} (h' : Fewer tables'' tables')
    (h : Fewer tables' tables) : Fewer tables'' tables :=
  ⟨fun id rx hrx => h.map id rx (h'.map id rx hrx),
    fun id result hr => h.ready id result (h'.ready id result hr)⟩

theorem Consumes.fewer (h : Consumes id tables tables') (ha : tables.Apart) :
    Fewer tables' tables := by
  refine ⟨fun x rx hrx => ?_, fun x result hr => ?_⟩
  · by_cases hx : x = id
    · rw [hx, h.map ha] at hrx
      cases hrx
    · exact (h.others x hx).1.symm.trans hrx
  · by_cases hx : x = id
    · rw [hx, h.ready] at hr
      cases hr
    · exact (h.others x hx).2.symm.trans hr

theorem Consumes.not_known (h : Consumes id tables tables') (ha : tables.Apart) :
    ¬tables'.Known id := by
  rw [known_iff_lookup, h.ready, h.map ha]
  rintro (⟨_, h⟩ | ⟨_, h⟩)
  · cases h
  · cases h

/-- An id that no poll will ever find ready: unknown, or known and listed again. -/
def Blocked (tables : PromiseTables ρ κ) (remaining : List Nat) : Prop :=
  (∃ id ∈ remaining, ¬tables.Known id) ∨ ¬remaining.Nodup

/-- None of the results that were fetched is a success. -/
def Barren (tables : PromiseTables ρ κ) (remaining : List Nat) : Prop :=
  ∀ id ∈ remaining, ∀ result, tables.readyResults.lookup id = some result → result.success = false

theorem Blocked.tail (h : Blocked tables (id :: remaining))
    (hf : Fewer tables' tables) (hk : tables.Known id) (hg : ¬tables'.Known id) :
    Blocked tables' remaining := by
  rcases h with ⟨x, hx, hu⟩ | hdup
  · rcases List.mem_cons.mp hx with rfl | hx
    · exact absurd hk hu
    · exact .inl ⟨x, hx, fun h => hu (hf.known h)⟩
  · by_cases hid : id ∈ remaining
    · exact .inl ⟨id, hid, hg⟩
    · exact .inr fun hn => hdup (List.nodup_cons.mpr ⟨hid, hn⟩)

theorem Barren.fewer {kept : List Nat} (h : Barren tables remaining)
    (hf : Fewer tables' tables) (hk : kept ⊆ remaining) : Barren tables' kept := by
  intro id hid result hr
  exact h id (hk hid) result (hf.ready id result hr)

theorem not_known_of_unready {t : Nat}
    (h : tables.Unready ((Surroundings.quiet ρ κ).recv t) id) : ¬tables.Known id := by
  obtain ⟨hr, he⟩ := h
  rw [known_iff_lookup]
  rintro (⟨rx, hrx⟩ | ⟨result, hre⟩)
  · cases he rx hrx
  · rw [hr] at hre
    cases hre

theorem anyScan_barren (s : Poller ρ κ) (ha : s.tables.Apart)
    (hb : Barren s.tables remaining) : Ends (anyScan (.quiet ρ κ) remaining) s
      (fun kept s' => kept.Sublist remaining ∧ Fewer s'.tables s.tables ∧
        (Blocked s.tables remaining → ∃ id ∈ kept, ¬s'.tables.Known id)) fun _ _ => False := by
  induction remaining generalizing s with
  | nil =>
    refine ends_pure ⟨.slnil, ⟨fun _ _ h => h, fun _ _ h => h⟩, ?_⟩
    rintro (⟨id, hid, -⟩ | hdup)
    · cases hid
    · exact absurd List.nodup_nil hdup
  | cons id remaining ih =>
    refine Ends.bind ((poll_ends _ id s).imp ?_ fun _ _ h => Bool.false_ne_true h.2)
    rintro answer s₁ ⟨-, ⟨rfl, ht, hu⟩ | ⟨result, rfl, han, hc⟩⟩
    · rw [← ht] at ha hb
      refine Ends.bind ((ih s₁ ha fun x hx => hb x (List.mem_cons_of_mem _ hx)).imp ?_
        fun _ _ h => h)
      rintro kept s' ⟨hs, hf, -⟩
      rw [ht] at hf
      refine ends_pure ⟨hs.cons_cons id, hf, fun _ => ⟨id, List.mem_cons_self, ?_⟩⟩
      exact fun h => not_known_of_unready hu (hf.known h)
    · have hfa : result.success = false := by
        rcases han with hfo | ⟨-, rx, -, hse | ⟨-, rfl⟩⟩
        · exact hb id List.mem_cons_self result hfo
        · cases hse
        · rfl
      have hk : s.tables.Known id := by
        rw [known_iff_lookup]
        rcases han with hfo | ⟨-, rx, hrx, -⟩
        · exact .inr ⟨result, hfo⟩
        · exact .inl ⟨rx, hrx⟩
      have hf := hc.fewer ha
      dsimp only
      rw [hfa, if_neg Bool.false_ne_true]
      refine Ends.bind (ends_modify ?_)
      refine (ih { s₁ with collected := s₁.collected ++ [rejection id result] }
        (hf.apart ha) (hb.fewer hf (List.subset_cons_self _ _))).imp ?_
        fun _ _ h => h
      rintro kept s' ⟨hs, hf', hke⟩
      refine ⟨hs.cons id, hf'.trans hf, fun hbl => hke ?_⟩
      exact hbl.tail hf hk (hc.not_known ha)

theorem any_never_returns (ha : tables.Apart) (hb : Barren tables ids)
    (hbl : Blocked tables ids) (cycles : Nat) :
    awaitAnyInFiber (.quiet ρ κ) ids cycles tables = none := by
  let I : Poller ρ κ → Prop := fun s =>
    s.tables.Apart ∧ Barren s.tables s.remaining ∧ Blocked s.tables s.remaining
  have hc : ∀ s, I s →
      Ends (anyCycle (.quiet ρ κ) ids) s (fun _ s' => I s') fun _ _ => False := by
    rintro s ⟨ha, hb, hbl⟩
    refine Ends.bind ?_
    change Ends (anyScan (.quiet ρ κ) s.remaining >>= _) s _ _
    refine Ends.bind ((anyScan_barren s ha hb).imp ?_ fun _ _ h => h)
    rintro kept s₁ ⟨hs, hf, hk⟩
    obtain ⟨id, hid, hu⟩ := hk hbl
    cases kept with
    | nil => cases hid
    | cons x kept =>
      -- some are left, there is no deadline and the fiber is resumed
      change I { s₁ with remaining := x :: kept, clock := s₁.clock + 1 }
      exact ⟨hf.apart ha, hb.fewer hf hs.subset, .inl ⟨id, hid, hu⟩⟩
  exact loop_eq_none hc ⟨ha, hb, hbl⟩ cycles

end Stuck

/-! ## Unknown ids -/

section Unknown

open PromiseTables

variable {ρ κ : Type} {w : Surroundings ρ κ} {ids : List Nat} {tables : PromiseTables ρ κ}

theorem anyScan_endsScan (remaining : List Nat) (s : Poller ρ κ) :
    Ends (anyScan w remaining) s (fun _ _ => True) fun answer _ => answer.endsScan = true := by
  induction remaining generalizing s with
  | nil => exact ends_pure trivial
  | cons id remaining ih =>
    refine Ends.bind ((poll_ends _ id s).imp ?_ ?_)
    · rintro answer s₁ ⟨-, ⟨rfl, -⟩ | ⟨result, rfl, -⟩⟩
      · exact Ends.bind ((ih s₁).imp (fun _ _ _ => ends_pure trivial) fun _ _ h => h)
      · dsimp only
        split
        · exact ends_throw (fulfilled_endsScan id result)
        · exact Ends.bind (ends_modify (ih _))
    · rintro answer s₁ ⟨rfl, -⟩
      rfl

/-- **No list is refused inside a fiber.** -/
theorem dispatchInFiber_refuses {kind : FanOut} {cycles : Nat} {answer : Answer}
    (h : dispatchInFiber w kind ids cycles tables = some answer) : answer.refuses = false := by
  unfold dispatchInFiber at h
  split at h
  · cases h
    rfl
  · cases kind with
    | race =>
      obtain ⟨⟨answer, s'⟩, hl, rfl⟩ := Option.map_eq_some_iff.mp h
      refine of_loop_eq_some (E := fun answer => answer.refuses = false) ?_ hl
      intro s
      exact (raceCycle_ends ids s).imp (fun _ _ _ => trivial) fun _ _ h => h
    | any =>
      obtain ⟨⟨answer, s'⟩, hl, rfl⟩ := Option.map_eq_some_iff.mp h
      refine of_loop_eq_some (E := fun answer => answer.refuses = false) ?_ hl
      intro s
      have hs : Ends (anyScan w s.remaining) s (fun _ _ => True)
          fun answer _ => answer.refuses = false :=
        (anyScan_endsScan s.remaining s).imp (fun _ _ h => h) fun _ _ => Answer.refuses_of_endsScan
      exact (anyCycle_ends ids s (fun _ _ h => h) hs).imp (fun _ _ _ => trivial) fun _ _ h => h

end Unknown

/-! ## The whole -/

section Main

open PromiseTables

variable {ρ κ : Type}

/-- Once every promise of the list that is known has settled, the call returns
within so many cycles. -/
def ReturnsOnceSettled (w : Surroundings ρ κ) (kind : FanOut) (tables : PromiseTables ρ κ)
    (ids : List Nat) : Prop :=
  ∀ T, (∀ id ∈ ids, w.SettledFrom T tables id) →
    ∃ cycles, (dispatchInFiber w kind ids cycles tables).isSome

def RefusesUnknown (w : Surroundings ρ κ) (kind : FanOut) (tables : PromiseTables ρ κ)
    (ids : List Nat) : Prop :=
  (∃ id ∈ ids, ¬tables.Known id) →
    ∃ bad cycles, dispatchInFiber w kind ids cycles tables = some (.unknown bad)

/-- All ids are known; and for `await_any` none is listed twice, unless a success
has been fetched already. -/
def Resolvable (kind : FanOut) (tables : PromiseTables ρ κ) (ids : List Nat) : Prop :=
  (∀ id ∈ ids, tables.Known id) ∧
    (kind = .any → ids.Nodup ∨
      ∃ id ∈ ids, ∃ result, tables.readyResults.lookup id = some result ∧ result.success = true)

variable {w : Surroundings ρ κ} {tables : PromiseTables ρ κ} {ids : List Nat}

theorem dispatchInFiber_race
    (hids : ids ≠ []) (cycles : Nat) : dispatchInFiber w .race ids cycles tables =
      (awaitRaceInFiber w ids cycles tables).map (·.1) :=
  if_neg (by simpa using hids)

theorem dispatchInFiber_any
    (hids : ids ≠ []) (cycles : Nat) : dispatchInFiber w .any ids cycles tables =
      (awaitAnyInFiber w ids cycles tables).map (·.1) :=
  if_neg (by simpa using hids)

theorem returns_of_resolvable {kind : FanOut} (hw : w.Discreet ids)
    (h : Resolvable kind tables ids) : ReturnsOnceSettled w kind tables ids := by
  intro T hs
  obtain ⟨hk, hany⟩ := h
  by_cases hids : ids = []
  · exact ⟨0, by rw [hids]; rfl⟩
  · cases kind with
    | race =>
      refine ⟨T + 1, ?_⟩
      rw [dispatchInFiber_race hids, Option.isSome_map]
      exact race_returns hw hids hk hs
    | any =>
      rcases hany rfl with hn | ⟨id, hid, result, hr, hsu⟩
      · refine ⟨T + 1, ?_⟩
        rw [dispatchInFiber_any hids, Option.isSome_map]
        exact any_returns hw hn hk hs
      · refine ⟨1, ?_⟩
        rw [dispatchInFiber_any hids, Option.isSome_map]
        exact any_returns_of_success hid hr hsu

/-- **`await_race` and `await_any` inside a fiber.**  Whatever the promises of the
list do, a call returns after they have settled and refuses an unknown id, if and
only if there is no unknown id to refuse and, for `await_any`, no id to wait for
twice. -/
theorem fanOut_resolves_iff (kind : FanOut) (tables : PromiseTables ρ κ) (ids : List Nat)
    (hapart : tables.Apart) : (∀ w : Surroundings ρ κ, w.Discreet ids →
      ReturnsOnceSettled w kind tables ids ∧ RefusesUnknown w kind tables ids) ↔
      Resolvable kind tables ids := by
  constructor
  · intro h
    obtain ⟨hr, hre⟩ := h _ (discreet_quiet ids)
    have hk : ∀ id ∈ ids, tables.Known id := by
      intro id hid
      by_contra hu
      obtain ⟨bad, cycles, hbad⟩ := hre ⟨id, hid, hu⟩
      cases dispatchInFiber_refuses hbad
    refine ⟨hk, ?_⟩
    rintro rfl
    by_contra hnot
    obtain ⟨hdup, hb⟩ := not_or.mp hnot
    obtain ⟨cycles, hr⟩ := hr 0 fun id _ rx _ t _ => nofun
    have hids : ids ≠ [] := by
      rintro rfl
      exact hdup List.nodup_nil
    have hn : awaitAnyInFiber (.quiet ρ κ) ids cycles tables = none := by
      refine any_never_returns hapart ?_ (.inr hdup) cycles
      intro id hid result hres
      by_contra hs
      exact hb ⟨id, hid, result, hres, by simpa using hs⟩
    rw [dispatchInFiber_any hids, hn] at hr
    cases hr
  · intro h w hw
    refine ⟨returns_of_resolvable hw h, ?_⟩
    rintro ⟨id, hid, hu⟩
    exact absurd (h.1 id hid) hu

end Main

/-- Two tasks under way and one whose rejection has been fetched. -/
def threeDispatched : PromiseTables Unit Unit :=
  { PromiseTables.empty with
    promiseMap := (AList.singleton 5 ()).insert 6 ()
    readyResults := AList.singleton 7 closedUnexpectedly }

theorem apart_threeDispatched : threeDispatched.Apart := by
  intro id hready
  obtain rfl : id = 7 := List.mem_singleton.mp hready
  decide

theorem fanOut_resolves_iff_threeDispatched :
    threeDispatched.Apart ∧ Resolvable .any threeDispatched [5, 7, 6] ∧
      ((∀ w : Surroundings Unit Unit, w.Discreet [5, 7, 6] →
        ReturnsOnceSettled w .any threeDispatched [5, 7, 6] ∧
          RefusesUnknown w .any threeDispatched [5, 7, 6]) ↔
        Resolvable .any threeDispatched [5, 7, 6]) :=
  ⟨apart_threeDispatched, ⟨by decide, fun _ => .inl (by decide)⟩,
    fanOut_resolves_iff .any threeDispatched [5, 7, 6] apart_threeDispatched⟩

def oneDispatched : PromiseTables Unit Unit :=
  { PromiseTables.empty with promiseMap := AList.singleton 5 () }

theorem apart_oneDispatched : oneDispatched.Apart :=
  fun _ h => absurd h (AList.notMem_empty _)

/-- The blocking call refuses the unknown id at once, the one inside a fiber never
returns; nor does one that lists a rejected promise twice. -/
theorem unknown_id_waits_forever :
    takeReceivers 0 [7] [] (.empty : PromiseTables Unit Unit) = (.error 7, .empty) ∧
      (∀ cycles, dispatchInFiber (.quiet Unit Unit) .race [7] cycles .empty = none) ∧
      ∀ cycles, dispatchInFiber (.quiet Unit Unit) .any [5, 5] cycles oneDispatched = none := by
  refine ⟨rfl, fun cycles => ?_, fun cycles => ?_⟩
  · rw [dispatchInFiber_race (by decide)]
    have hc : ∀ s : Poller Unit Unit, s.tables = .empty →
        Ends (raceCycle (.quiet Unit Unit) [7]) s (fun _ s' => s'.tables = .empty)
          fun _ _ => False := by
      rintro ⟨tables, clock, remaining, collected⟩ rfl
      exact (rfl : _ = _)
    rw [awaitRaceInFiber, loop_eq_none hc rfl]
    rfl
  · rw [dispatchInFiber_any (by decide), any_never_returns apart_oneDispatched _ (.inr (by decide))]
    · rfl
    · intro id _ result hr
      cases hr

end OxPhp.Async
