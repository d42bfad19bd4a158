import Mathlib.Algebra.Order.BigOperators.Group.Finset
import OxPhp.Lib.Runs
import OxPhp.Shared.MapCell
import OxPhp.Shared.Mutex.WithLock
import OxPhp.Shared.RefGraph

/-!
# The books of the whole registry

Every operation on shared entries, one at a time, with the bytes it books.  A
Mutex books its first state when it is made and nothing after that.  What runs
inside a closure under a Mutex's lock comes before the operation on that Mutex.
-/

namespace OxPhp.Shared

open ByteStr OxPhp.Async
open Accounting (adjusted adjusted_add_natCast adjusted_sub_natCast fetchSub fetchSub_of_le)

/-! ## Sizes -/

/-- The size of a Once. -/
def OnceInner.memBytes (o : OnceInner) : Nat :=
  16 + match o.state with
    | .ready v => v.memBytes
    | _ => 0

/-- The size of a Mutex. -/
def MutexInner.memBytes (m : MutexInner) : Nat := 32 + m.state.memBytes

/-- The size of a Channel. -/
def ChannelInner.memBytes (c : ChannelInner) : Nat := 64 + c.pending.toNat * 32

/-- A cell of a fixed size, as `size_of` has it, or a Pool of so many slots. -/
def scalarMemBytes (slots : UInt64) : SharedType → Nat
  | .flag => 1
  | .pool => 128 + slots.toNat * 64
  | _ => 8

/-- `SharedInner::mem_bytes`. -/
def Inner.memBytes (slots : UInt64) : Inner → Nat
  | scalar typeTag => scalarMemBytes slots typeTag
  | once o => o.memBytes
  | mutex m => m.memBytes
  | channel c => c.memBytes
  | map m => m.memBytes

/-! ## What a Channel books -/

/-- `CHANNEL_PER_PAYLOAD_BYTES`. -/
def channelPerPayloadBytes : Int := 32

namespace ChannelInner

/-- The bookings of `drain_buffered_to_waiters`: one back for every item it
takes, one again for an item it puts back. -/
def drainBufferedToWaitersDeltas (c : ChannelInner) (senders : ChannelSenders) : List Int :=
  if _hnone : c.recvWaiters = [] then []
  else
    match _hitem : c.takeItem with
    | none => []
    | some (p, c₁) =>
      let handed := c₁.drainOneRecvWaiterWith senders p
      if handed.1 then
        let woken := handed.2.1.drainOneSendWaiterOnSlotFree handed.2.2
        (-channelPerPayloadBytes) :: drainBufferedToWaitersDeltas woken.1 woken.2
      else
        (-channelPerPayloadBytes) :: channelPerPayloadBytes :: drainBufferedToWaitersDeltas
          ((handed.2.1.indexAdd p.keepalive).pushFront p).bumpPending handed.2.2
termination_by c.recvWaiters.length
decreasing_by
  all_goals
    have hshort := handToWaiter_length p c.recvWaiters senders
    have hpos : 0 < c.recvWaiters.length := List.length_pos_iff.mpr _hnone
    simp only [drainOneSendWaiterOnSlotFree_recvWaiters, drainOneRecvWaiterWith,
      c.takeItem_recvWaiters _hitem, indexAdd, pushFront, bumpPending]
    omega

variable (c : ChannelInner) (senders : ChannelSenders)

/-- The bookings of `try_send`. -/
def trySendDeltas (p : Payload) : List Int :=
  if c.closed then []
  else
    match c.drainOneRecvWaiterWith senders p with
    | (true, _) => []
    | (false, c₁, senders₁) =>
      match (c₁.indexAdd p.keepalive).deposit p with
      | some c₂ =>
        channelPerPayloadBytes :: c₂.bumpPending.drainBufferedToWaitersDeltas senders₁
      | none => []

/-- The bookings of `try_recv`. -/
def tryRecvDeltas : List Int :=
  match c.takeItem with
  | some _ => [-channelPerPayloadBytes]
  | none => []

/-- The bookings of `register_recv_waiter`. -/
def registerRecvWaiterDeltas (id : PromiseId) : List Int :=
  if c.closed && c.pending == 0 then []
  else (c.pushRecvWaiter id).drainBufferedToWaitersDeltas senders

end ChannelInner

/-- The value an operation stores into a Once: none unless it is empty. -/
def OnceInner.storing (o : OnceInner) (value : Option SharedValue) : Option SharedValue :=
  match o.state with
  | .uninit => value
  | _ => none

/-- What a factory made, once stored and read back. -/
def Registry.made (reg : Registry) (factory : Except OnceFactoryError SharedValue) :
    Except OnceFactoryError SharedValue :=
  match factory with
  | .ok v => (reg.decode v).mapError fun _ => .notSerialisable
  | .error e => .error e

/-! ## Books -/

/-- What is kept beside an entry: the bytes booked for it, a Map's stripes and a
Pool's `size`. -/
structure Book where
  memBytes : Nat
  stripes : Fin stripeCount → Int
  slots : UInt64

/-- The registry with its books and totals. -/
structure Books where
  reg : Registry
  entry : SharedId → Book
  totalEntries : Nat
  totalBytes : Nat

namespace Books

/-- An empty registry. -/
def empty (config : SharedConfig) (seed : SharedId) : Books where
  reg := .empty config seed
  entry := fun _ => ⟨0, fun _ => 0, 0⟩
  totalEntries := 0
  totalBytes := 0

/-- A Pool changes its size one slot at a time, whatever it is for: `acquire`
reserves a slot against the Pool's cap, and a slot that is given up is released. -/
inductive Act where
  | op (op : Registry.Op)
  | mutexTryWithLock (id : SharedId) (invoke : Invoke)
  | poolTryReserveBudget (id : SharedId) (maxSize : UInt64)
  | poolReleaseBudget (id : SharedId)

section Exec

variable (S : Accounting.Setting) (scan : Bytes → Option (List SharedRef))
  (stripeIndex : MapKey → Fin stripeCount) (s : Books)

/-- `Registry::insert`, within the limits. -/
def insert (inner : Inner) : Except Failure Unit × Books :=
  let mem := inner.memBytes 0 + entryFixedOverhead
  if s.totalEntries + 1 > S.maxEntries then
    (.error (Accounting.entriesFailure S (s.totalEntries + 1)), s)
  else if s.totalBytes + mem > S.maxBytes then
    (.error (Accounting.bytesFailure S (s.totalBytes + mem)), s)
  else
    (.ok (),
      { reg := s.reg.insert inner
        entry := Function.update s.entry s.reg.nextId ⟨mem, fun _ => 0, 0⟩
        totalEntries := s.totalEntries + 1
        totalBytes := s.totalBytes + mem })

/-- `Entry::adjust_mem_bytes`, once for every change. -/
def adjust (id : SharedId) (deltas : List Int) : Books :=
  { s with
    entry := Function.update s.entry id
      { s.entry id with memBytes := deltas.foldl adjusted (s.entry id).memBytes }
    totalBytes := deltas.foldl adjusted s.totalBytes }

/-- A Map with what is booked for it. -/
def mapCell (id : SharedId) (m : MapInner) : MapCell where
  inner := m
  counts := (s.entry id).stripes
  memBytes := (s.entry id).memBytes
  totalBytes := s.totalBytes

/-- The bookings of an operation on a Map. -/
def trackMap (id : SharedId) (call : Except Failure MapCall) : Books :=
  match s.reg.entries id, call with
  | some (.map m), .ok call =>
    let c := Effect.after ((MapCell.exec stripeIndex (s.reg.mapCheck id) call).run (s.mapCell id m))
    { s with
      entry := Function.update s.entry id
        { s.entry id with memBytes := c.memBytes, stripes := c.counts }
      totalBytes := c.totalBytes }
  | _, _ => s

/-- The bookings of an operation on a Channel. -/
def trackChannel (id : SharedId) (deltas : ChannelInner → List Int) : Books :=
  match s.reg.entries id with
  | some (.channel c) => s.adjust id (deltas c)
  | _ => s

/-- The bookings of an operation on a Once. -/
def trackOnce (id : SharedId) (value : Option SharedValue) : Books :=
  match s.reg.entries id with
  | some (.once o) =>
    match o.storing value with
    | some v => s.adjust id [(v.memBytes : Int)]
    | none => s
  | _ => s

/-- The bookings of an operation, by kind. -/
def track : Registry.Op → Books
  | .mapSet id key value => s.trackMap stripeIndex id ((s.reg.decode value).map (.set key))
  | .mapSwap id key value => s.trackMap stripeIndex id ((s.reg.decode value).map (.swap key))
  | .mapSetIfAbsent id key value =>
    s.trackMap stripeIndex id ((s.reg.decode value).map (.setIfAbsent key))
  | .mapCompareAndSet id key expected new => s.trackMap stripeIndex id do
    let expected ← expected.mapM s.reg.decode
    let new ← new.mapM s.reg.decode
    return .compareAndSet key expected new
  | .mapSetMany id batch => s.trackMap stripeIndex id
    ((batch.mapM fun kv => (s.reg.decode kv.2).map fun v => (kv.1, v)).map .setMany)
  | .mapPop id key => s.trackMap stripeIndex id (.ok (.pop key))
  | .mapClear id => s.trackMap stripeIndex id (.ok .clear)
  | .channelSend id bytes => s.trackChannel id fun c =>
    match s.reg.buildPayload scan id bytes with
    | .ok p => c.trySendDeltas s.reg.senders p
    | .error _ => []
  | .channelRecv id => s.trackChannel id fun c => c.tryRecvDeltas
  | .channelParkRecv id => s.trackChannel id fun c =>
    c.registerRecvWaiterDeltas s.reg.senders.alloc.2 s.reg.senders.alloc.1
  | .onceTrySet id value => s.trackOnce id (s.reg.decode value).toOption
  | .onceGetOrInit id factory => s.trackOnce id (s.reg.made factory).toOption
  | _ => s

/-- The last reference goes, and what was booked with it. -/
def drop (id : SharedId) : Books :=
  if s.reg.isReferenced id then s
  else
    match s.reg.entries id with
    | some _ =>
      { s with
        reg := s.reg.dropEntry id
        totalEntries := fetchSub s.totalEntries 1
        totalBytes := fetchSub s.totalBytes (s.entry id).memBytes }
    | none => s

/-- An operation on a Pool, or the failure for anything else. -/
def onPool (id : SharedId) (f : Except Failure Unit × Books) : Except Failure Unit × Books :=
  match s.reg.entries id with
  | some (.scalar .pool) => f
  | some _ => (.error ⟨.type, []⟩, s)
  | none => (.error Registry.staleHandle, s)

/-- A Pool changes its size. -/
def resize (id : SharedId) (slots : UInt64) : Books :=
  { s with entry := Function.update s.entry id { s.entry id with slots } }

/-- `try_reserve_budget`. -/
def poolTryReserveBudget (id : SharedId) (maxSize : UInt64) : Except Failure Unit × Books :=
  if (s.entry id).slots < maxSize then
    (.ok (), (s.resize id ((s.entry id).slots + 1)).adjust id [64])
  else (.error ⟨.timeout, []⟩, s)

/-- `release_budget`. -/
def poolReleaseBudget (id : SharedId) : Except Failure Unit × Books :=
  (.ok (), (s.resize id ((s.entry id).slots - 1)).adjust id [-64])

/-- One operation. -/
def exec : Act → Except Failure Unit × Books
  | .op (.createScalar typeTag) => s.insert S (.scalar typeTag)
  | .op (.createOnce failureMode) => s.insert S (.once (.new failureMode))
  | .op (.createMutex initial) =>
    match s.reg.decode initial with
    | .ok v => s.insert S (.mutex { state := v, corrupted := false })
    | .error e => (.error e, s)
  | .op (.createChannel capacity) => s.insert S (.channel (.new capacity))
  | .op (.createMap maxEntries) => s.insert S (.map (.new maxEntries))
  | .op (.drop id) => (.ok (), s.drop id)
  | .op op =>
    ((s.reg.exec scan op).1, { s.track scan stripeIndex op with reg := (s.reg.exec scan op).2 })
  | .mutexTryWithLock id invoke =>
    let r := s.reg.onMutex id fun m => m.tryWithLock s.reg.decode invoke
    (r.1, { s with reg := r.2 })
  | .poolTryReserveBudget id maxSize => s.onPool id (s.poolTryReserveBudget id maxSize)
  | .poolReleaseBudget id => s.onPool id (s.poolReleaseBudget id)

/-- A sequence of operations. -/
def run (s : Books) (acts : List Act) : Books :=
  acts.foldl (fun s act => (s.exec S scan stripeIndex act).2) s

end Exec

/-! ## What a Channel books follows what it holds -/

end Books

namespace ChannelInner

/-- `pending` counts the items. -/
def Counted (c : ChannelInner) : Prop := c.pending.toNat = c.held.length

/-- Bookings that lead from one Channel to another: each is exact. -/
structure Tracks (c c' : ChannelInner) (deltas : List Int) : Prop where
  counted : c'.Counted
  booked : ∀ base : Nat, deltas.foldl adjusted (base + 32 * c.held.length) =
    base + 32 * c'.held.length

section Tracks

variable {c c' c'' : ChannelInner} {senders : ChannelSenders} {deltas deltas' : List Int}
  {p : Payload}

theorem Counted.same (h : c.Counted) (hh : c'.held = c.held) (hp : c'.pending = c.pending) :
    c.Tracks c' [] := by
  refine ⟨?_, fun base => ?_⟩
  · rw [Counted, hp, hh]
    exact h
  · rw [List.foldl_nil, hh]

theorem Tracks.trans (h : c.Tracks c' deltas) (h' : c'.Tracks c'' deltas') :
    c.Tracks c'' (deltas ++ deltas') := by
  refine ⟨h'.counted, fun base => ?_⟩
  rw [List.foldl_append, h.booked, h'.booked]

theorem tracks_takeItem (h : c.Counted) (hite : c.takeItem = some (p, c')) :
    c.Tracks c' [-channelPerPayloadBytes] := by
  have hh : c.held = p :: c'.held := (takeItem_held hite).1
  have hp : c'.pending = c.pending - 1 := by
    rcases takeItem_eq_some hite with ⟨rest, -, rfl⟩ | ⟨-, rest, -, rfl⟩ <;> rfl
  have hlength : c.held.length = c'.held.length + 1 := by rw [hh, List.length_cons]
  constructor
  · unfold Counted at h ⊢
    have hone : (1 : UInt64) ≤ c.pending :=
      UInt64.le_iff_toNat_le.mpr (by rw [h, hlength]; exact Nat.le_add_left 1 _)
    rw [hp, UInt64.toNat_sub_of_le _ _ hone, h, hlength]
    rfl
  · intro base
    change adjusted (base + 32 * c.held.length) (-(32 : Nat)) = _
    rw [adjusted_sub_natCast (by omega)]
    omega

theorem Counted.bumped (h : c.Counted) (hr : c.held.length + 1 < 2 ^ 64)
    (hh : c'.held.length = c.held.length + 1) (hp : c'.pending = c.pending + 1) :
    c.Tracks c' [channelPerPayloadBytes] := by
  constructor
  · unfold Counted at h ⊢
    rw [hp, UInt64.toNat_add, h, hh]
    exact Nat.mod_eq_of_lt hr
  · intro base
    change adjusted (base + 32 * c.held.length) (32 : Nat) = _
    rw [adjusted_add_natCast, hh]
    omega

theorem Counted.room (h : c.Counted) (hite : c.takeItem = some (p, c')) :
    c'.held.length + 1 < 2 ^ 64 := by
  have hh : c.held = p :: c'.held := (takeItem_held hite).1
  have hsize := c.pending.toNat_lt
  rw [h, hh, List.length_cons] at hsize
  exact hsize

theorem held_drainOneSendWaiterOnSlotFree :
    (c.drainOneSendWaiterOnSlotFree senders).1.held = c.held ∧
      (c.drainOneSendWaiterOnSlotFree senders).1.pending = c.pending := by
  unfold drainOneSendWaiterOnSlotFree
  split <;> exact ⟨rfl, rfl⟩

/-- Draining books one back for every item handed on. -/
theorem tracks_drainBufferedToWaiters (c : ChannelInner) (senders : ChannelSenders)
    (h : c.Counted) : c.Tracks (c.drainBufferedToWaiters senders).1
      (c.drainBufferedToWaitersDeltas senders) := by
  fun_induction drainBufferedToWaiters c senders with
  | case1 c senders hn =>
    rw [drainBufferedToWaitersDeltas, dif_pos hn]
    exact h.same rfl rfl
  | case2 c senders hne hitem =>
    rw [drainBufferedToWaitersDeltas, dif_neg hne]
    split
    · exact h.same rfl rfl
    · next hs => exact absurd (hitem.symm.trans hs) (by simp)
  | case3 c senders hne p c₁ hitem handed ht woken ih =>
    have hta := tracks_takeItem h hitem
    have hw : c₁.Tracks woken.1 [] :=
      hta.counted.same held_drainOneSendWaiterOnSlotFree.1 held_drainOneSendWaiterOnSlotFree.2
    rw [drainBufferedToWaitersDeltas, dif_neg hne]
    split
    · next hs => exact absurd (hs.symm.trans hitem) (by simp)
    · next p' c₁' hs =>
      obtain ⟨rfl, rfl⟩ := Prod.mk.inj (Option.some.inj (hitem.symm.trans hs))
      rw [if_pos ht]
      exact (hta.trans hw).trans (ih hw.counted)
  | case4 c senders hne p c₁ hitem handed ht ih =>
    have hta := tracks_takeItem h hitem
    have hb : c₁.Tracks ((handed.2.1.indexAdd p.keepalive).pushFront p).bumpPending
        [channelPerPayloadBytes] := by
      refine hta.counted.bumped (h.room hitem) ?_ rfl
      simp [held, handed, drainOneRecvWaiterWith, indexAdd, pushFront, bumpPending]
      omega
    rw [drainBufferedToWaitersDeltas, dif_neg hne]
    split
    · next hs => exact absurd (hs.symm.trans hitem) (by simp)
    · next p' c₁' hs =>
      obtain ⟨rfl, rfl⟩ := Prod.mk.inj (Option.some.inj (hitem.symm.trans hs))
      rw [if_neg ht]
      exact (hta.trans hb).trans (ih hb.counted)

/-- A send books the item it leaves in the buffer. -/
theorem tracks_trySend (h : c.Counted) (hr : c.held.length + 1 < 2 ^ 64) :
    c.Tracks (c.trySend senders p).2.1 (c.trySendDeltas senders p) := by
  unfold trySend trySendDeltas
  split
  · exact h.same rfl rfl
  · cases hh : c.drainOneRecvWaiterWith senders p with
    | mk taken rest =>
      obtain ⟨c₁, senders₁⟩ := rest
      have hc₁ : c₁ = (c.drainOneRecvWaiterWith senders p).2.1 := by rw [hh]
      have hhe : c₁.held = c.held := by rw [hc₁]; rfl
      have hp : c₁.pending = c.pending := by rw [hc₁]; rfl
      cases taken with
      | true =>
        dsimp only
        unfold wakeSendWaiterIfRoom
        split
        · exact h.same (held_drainOneSendWaiterOnSlotFree.1.trans hhe)
            (held_drainOneSendWaiterOnSlotFree.2.trans hp)
        · exact h.same hhe hp
      | false =>
        dsimp only
        cases hd : (c₁.indexAdd p.keepalive).deposit p with
        | none => exact h.same hhe hp
        | some c₂ =>
          have hin : c₂.held = c₁.held ++ [p] := (deposit_held hd).1
          have hc : c₂.pending = c₁.pending := by
            unfold deposit at hd
            split at hd
            · cases hd
              rfl
            · cases hd
          have hb : c.Tracks c₂.bumpPending [channelPerPayloadBytes] := by
            refine h.bumped hr ?_ ?_
            · change c₂.held.length = _
              rw [hin, hhe, List.length_append, List.length_singleton]
            · change c₂.pending + 1 = _
              rw [hc, hp]
          exact hb.trans (tracks_drainBufferedToWaiters _ _ hb.counted)

theorem tracks_tryRecv (h : c.Counted) : c.Tracks (c.tryRecv senders).2.1 c.tryRecvDeltas := by
  unfold tryRecv tryRecvDeltas
  cases hite : c.takeItem with
  | none => exact h.same rfl rfl
  | some taken =>
    have ht := tracks_takeItem h hite
    exact ht.trans (ht.counted.same held_drainOneSendWaiterOnSlotFree.1
      held_drainOneSendWaiterOnSlotFree.2)

theorem tracks_close (h : c.Counted) : c.Tracks (c.close senders).2.1 [] := by
  unfold close
  split <;> exact h.same rfl rfl

theorem tracks_registerRecvWaiter (h : c.Counted) (id : PromiseId) :
    c.Tracks (c.registerRecvWaiter senders id).1 (c.registerRecvWaiterDeltas senders id) := by
  unfold registerRecvWaiter registerRecvWaiterDeltas
  split
  · exact h.same rfl rfl
  · have hp : c.Tracks (c.pushRecvWaiter id) [] := h.same rfl rfl
    exact hp.trans (tracks_drainBufferedToWaiters _ _ hp.counted)

theorem tracks_registerSendWaiter (h : c.Counted) (id : PromiseId) :
    c.Tracks (c.registerSendWaiter senders id).1 [] := by
  unfold registerSendWaiter parkSender
  split_ifs <;> exact h.same rfl rfl

end Tracks

end ChannelInner

/-! ## Sound books -/

namespace Books

/-- A book says what its entry holds. -/
structure Fits (b : Book) (inner : Inner) : Prop where
  booked : b.memBytes = inner.memBytes b.slots + entryFixedOverhead
  counted : match inner with
    | .channel c => c.Counted
    | .map m => ∑ i, b.stripes i = m.count ∧ ∀ v ∈ m.values, v ≠ .null
    | _ => True

/-- What the total counts for an id. -/
def share (s : Books) (id : SharedId) : Nat :=
  if (s.reg.entries id).isSome then (s.entry id).memBytes else 0

/-- The invariant: every book fits its entry, and the total is their sum. -/
structure Sound (s : Books) : Prop where
  below : ∀ id inner, s.reg.entries id = some inner → id < s.reg.nextId
  fits : ∀ id inner, s.reg.entries id = some inner → Fits (s.entry id) inner
  total : s.totalBytes = ∑ id ∈ Finset.range s.reg.nextId, s.share id

theorem sound_empty (config : SharedConfig) (seed : SharedId) : (empty config seed).Sound := by
  refine ⟨nofun, nofun, ?_⟩
  exact (Finset.sum_eq_zero fun id _ => rfl).symm

variable {S : Accounting.Setting} {scan : Bytes → Option (List SharedRef)}
  {stripeIndex : MapKey → Fin stripeCount} {s s' : Books} {id : SharedId} {inner inner' : Inner}

theorem share_of_live (h : s.reg.entries id = some inner) : s.share id = (s.entry id).memBytes := by
  rw [share, h]
  rfl

/-- A sum changes with one of its terms. -/
theorem sum_range_change {n : Nat} {f g : SharedId → Nat} (hid : id < n)
    (h : ∀ a, a ≠ id → g a = f a) :
    ∑ a ∈ Finset.range n, g a + f id = ∑ a ∈ Finset.range n, f a + g id := by
  have hmem : id ∈ Finset.range n := Finset.mem_range.mpr hid
  have hf := Finset.add_sum_erase (Finset.range n) f hmem
  have hg := Finset.add_sum_erase (Finset.range n) g hmem
  have hr : ∑ a ∈ (Finset.range n).erase id, g a = ∑ a ∈ (Finset.range n).erase id, f a :=
    Finset.sum_congr rfl fun a ha => h a (Finset.ne_of_mem_erase ha)
  omega

theorem Sound.le_total (h : s.Sound) (hl : s.reg.entries id = some inner) :
    (s.entry id).memBytes ≤ s.totalBytes := by
  have hs : s.share id ≤ ∑ a ∈ Finset.range s.reg.nextId, s.share a :=
    Finset.single_le_sum (fun _ _ => Nat.zero_le _)
      (Finset.mem_range.mpr (h.below id inner hl))
  rw [h.total, ← share_of_live hl]
  exact hs

/-- **A change of one entry that its book and the total follow.** -/
theorem Sound.put (h : s.Sound) (hl : s.reg.entries id = some inner)
    (hn : s'.reg.nextId = s.reg.nextId)
    (he : s'.reg.entries = Function.update s.reg.entries id (some inner'))
    (hen : ∀ a, a ≠ id → s'.entry a = s.entry a) (hf : Fits (s'.entry id) inner')
    (ht : s'.totalBytes + (s.entry id).memBytes = s.totalBytes + (s'.entry id).memBytes) :
    s'.Sound := by
  have hs : s'.reg.entries id = some inner' := by rw [he, Function.update_self]
  have ho : ∀ a, a ≠ id → s'.reg.entries a = s.reg.entries a := by
    intro a ha
    rw [he, Function.update_of_ne ha]
  refine ⟨?_, ?_, ?_⟩
  · intro a e ha
    rw [hn]
    by_cases hid : a = id
    · exact hid ▸ h.below id inner hl
    · exact h.below a e (ho a hid ▸ ha)
  · intro a e ha
    by_cases hid : a = id
    · rw [hid] at ha ⊢
      rw [hs] at ha
      exact Option.some.inj ha ▸ hf
    · rw [hen a hid]
      exact h.fits a e (ho a hid ▸ ha)
  · have hsh : ∀ a, a ≠ id → s'.share a = s.share a := by
      intro a ha
      rw [share, share, ho a ha, hen a ha]
    have hsum := sum_range_change (h.below id inner hl) hsh
    have hb := h.total
    rw [share_of_live hl, share_of_live hs] at hsum
    rw [hn]
    omega

theorem Sound.registry (h : s.Sound) (hn : s'.reg.nextId = s.reg.nextId)
    (he : s'.reg.entries = s.reg.entries) (hen : s'.entry = s.entry)
    (ht : s'.totalBytes = s.totalBytes) : s'.Sound := by
  refine ⟨?_, ?_, ?_⟩
  · rw [he, hn]
    exact h.below
  · rw [he, hen]
    exact h.fits
  · have hs : s'.share = s.share := by
      funext a
      rw [share, share, he, hen]
    rw [ht, hn, hs]
    exact h.total

/-! ## Bookings -/

variable {slots : UInt64} {a : SharedId} {b : Book} {c : ChannelInner} {reg : Registry}

/-- **A change of one entry that is booked by deltas**, each exact whatever else is
booked. -/
theorem Sound.booked {deltas : List Int} (h : s.Sound) (hl : s.reg.entries id = some inner)
    (hn : s'.reg.nextId = s.reg.nextId)
    (he : s'.reg.entries = Function.update s.reg.entries id (some inner'))
    (hen : ∀ a, a ≠ id → s'.entry a = s.entry a) (hs : s'.entry id =
      ⟨deltas.foldl adjusted (s.entry id).memBytes, (s.entry id).stripes, slots⟩)
    (ht : s'.totalBytes = deltas.foldl adjusted s.totalBytes)
    (hf : ∀ b : Book, b.memBytes = inner'.memBytes slots + entryFixedOverhead →
      b.stripes = (s.entry id).stripes → b.slots = slots → Fits b inner')
    (hb : ∀ base, deltas.foldl adjusted (base + inner.memBytes (s.entry id).slots) =
      base + inner'.memBytes slots) : s'.Sound := by
  have hbo := (h.fits id inner hl).booked
  have hmem : deltas.foldl adjusted (s.entry id).memBytes =
      inner'.memBytes slots + entryFixedOverhead := by
    rw [hbo, Nat.add_comm, hb, Nat.add_comm]
  refine h.put hl hn he hen ?_ ?_
  · rw [hs]
    exact hf _ hmem rfl rfl
  · have hle := h.le_total hl
    -- the total is this entry's content and the rest
    have hr := hb (s.totalBytes - inner.memBytes (s.entry id).slots)
    rw [Nat.sub_add_cancel (by omega)] at hr
    rw [ht, hs, hmem, hr]
    dsimp only
    omega

theorem entry_adjust_of_ne {deltas : List Int} (h : a ≠ id) :
    (s.adjust id deltas).entry a = s.entry a := Function.update_of_ne h _ _

theorem entry_adjust_self {deltas : List Int} : (s.adjust id deltas).entry id =
    { s.entry id with memBytes := deltas.foldl adjusted (s.entry id).memBytes } :=
  Function.update_self _ _ _

theorem adjust_nil : s.adjust id [] = s := by
  have hs : Function.update s.entry id (s.entry id) = s.entry := Function.update_eq_self id s.entry
  unfold adjust
  rw [List.foldl_nil, List.foldl_nil, hs]

theorem Sound.adjust {deltas : List Int} (h : s.Sound) (inner' : Inner)
    (hl : s.reg.entries id = some inner)
    (hf : ∀ b : Book, b.memBytes = inner'.memBytes b.slots + entryFixedOverhead →
      b.stripes = (s.entry id).stripes → Fits b inner')
    (hb : ∀ base, deltas.foldl adjusted (base + inner.memBytes (s.entry id).slots) =
      base + inner'.memBytes (s.entry id).slots) (hn : reg.nextId = s.reg.nextId := by rfl)
    (he : reg.entries = Function.update s.reg.entries id (some inner') := by rfl) :
    { s.adjust id deltas with reg }.Sound :=
  h.booked hl hn he (fun _ ha => entry_adjust_of_ne ha) entry_adjust_self rfl
    (fun b hm hs hsl => hf b (hsl ▸ hm) hs) hb

/-- Nothing is booked for an entry that keeps its size. -/
theorem Sound.kept (h : s.Sound) (hl : s.reg.entries id = some inner)
    (hf : ∀ b : Book, b.memBytes = inner'.memBytes b.slots + entryFixedOverhead → Fits b inner')
    (hb : inner'.memBytes (s.entry id).slots = inner.memBytes (s.entry id).slots) :
    { s with reg := s.reg.put id inner' }.Sound := by
  have hq : { s.adjust id [] with reg := s.reg.put id inner' }.Sound :=
    h.adjust _ hl (fun b hm _ => hf b hm) fun base => congrArg (base + ·) hb.symm
  rwa [adjust_nil] at hq

/-! ### Channels -/

theorem tracks_memBytes {c' : ChannelInner} {deltas : List Int} (hc : c.Counted)
    (h : c.Tracks c' deltas) (base : Nat) :
    deltas.foldl adjusted (base + c.memBytes) = base + c'.memBytes := by
  have hb := h.booked (base + 64)
  have hc' := h.counted
  unfold ChannelInner.memBytes
  rw [hc, hc', Nat.mul_comm, ← Nat.add_assoc, hb, Nat.mul_comm, ← Nat.add_assoc]

/-- An operation on a Channel keeps the books. -/
theorem Sound.onChannel (h : s.Sound) {deltas : ChannelInner → List Int}
    {f : ChannelInner → ChannelSenders → Except Failure Unit × ChannelInner × ChannelSenders}
    (hf : ∀ c, s.reg.entries id = some (.channel c) → c.Counted →
      c.Tracks (f c s.reg.senders).2.1 (deltas c)) :
    { s.trackChannel id deltas with reg := (s.reg.onChannel id f).2 }.Sound := by
  unfold Registry.onChannel trackChannel
  cases he : s.reg.entries id with
  | none => exact h
  | some inner =>
    cases inner with
    | channel c =>
      have hc : c.Counted := (h.fits id _ he).counted
      have ht := hf c he hc
      exact h.adjust (.channel _) he (fun b hb _ => ⟨hb, ht.counted⟩) (tracks_memBytes hc ht)
    | _ => exact h

theorem trackChannel_nil : s.trackChannel id (fun _ => []) = s := by
  unfold trackChannel
  split
  · exact adjust_nil
  · rfl

theorem Sound.onChannel_quiet (h : s.Sound)
    {f : ChannelInner → ChannelSenders → Except Failure Unit × ChannelInner × ChannelSenders}
    (hf : ∀ c : ChannelInner, c.Counted → c.Tracks (f c s.reg.senders).2.1 []) :
    { s with reg := (s.reg.onChannel id f).2 }.Sound := by
  have hq : { s.trackChannel id (fun _ => []) with reg := (s.reg.onChannel id f).2 }.Sound :=
    h.onChannel fun c _ hc => hf c hc
  rwa [trackChannel_nil] at hq

/-! ### Maps -/

section Map

variable {m : MapInner} {call : MapCall}

theorem Sound.mapCell (h : s.Sound) (hl : s.reg.entries id = some (.map m)) :
    MapCell.Sound (s.totalBytes - (s.entry id).memBytes) (s.mapCell id m) := by
  have hf := h.fits id _ hl
  refine ⟨hf.counted.1, hf.booked, ?_, hf.counted.2⟩
  exact (Nat.sub_add_cancel (h.le_total hl)).symm

/-- So does a call on a Map. -/
theorem Sound.mapped (h : s.Sound) (hl : s.reg.entries id = some (.map m)) {reg : Registry}
    (hn : reg.nextId = s.reg.nextId) (he : reg.entries = Function.update s.reg.entries id
      (some (.map (m.exec (s.reg.mapCheck id) call).2))) :
    { s.trackMap stripeIndex id (.ok call) with reg := reg }.Sound := by
  obtain ⟨-, hin, hs⟩ : MapCell.Does (s.totalBytes - (s.entry id).memBytes)
      ((MapCell.exec stripeIndex (s.reg.mapCheck id) call).run (s.mapCell id m))
      (m.exec (s.reg.mapCheck id) call) := MapCell.does_exec (h.mapCell hl) call
  have hle := h.le_total hl
  unfold trackMap
  rw [hl]
  dsimp only
  generalize Effect.after ((MapCell.exec stripeIndex (s.reg.mapCheck id) call).run
    (s.mapCell id m)) = c at hin hs
  rw [← hin] at he
  refine h.put hl hn he (fun a ha => Function.update_of_ne ha _ _) ?_ ?_
  · dsimp only
    rw [Function.update_self]
    exact ⟨hs.booked, hs.counted, hs.storable⟩
  · dsimp only
    rw [Function.update_self, hs.total]
    dsimp only
    omega

theorem trackMap_error {e : Failure} : s.trackMap stripeIndex id (.error e) = s := by
  unfold trackMap
  split
  · next hc => cases hc
  · rfl

theorem trackMap_of_not_map {call : Except Failure MapCall}
    (h : ∀ m, s.reg.entries id ≠ some (.map m)) : s.trackMap stripeIndex id call = s := by
  unfold trackMap
  split
  · next m _ hmap => exact absurd hmap (h m)
  · rfl

/-- The Map after an operation that may fail. -/
def settled (m : MapInner) : Except Failure MapInner → MapInner
  | .ok m' => m'
  | .error _ => m

/-- An operation on a Map that goes as one of the calls, or fails before it. -/
inductive Goes (s : Books) (id : SharedId) (m : MapInner) :
    Except Failure MapCall → Except Failure MapInner → Prop
  | refused (e : Failure) : Goes s id m (.error e) (.error e)
  | called {call : MapCall} {r : Except Failure MapInner}
      (h : settled m r = (m.exec (s.reg.mapCheck id) call).2) : Goes s id m (.ok call) r

/-- An operation on a Map goes as one call, or books nothing. -/
theorem Sound.onMap (h : s.Sound) {call : Except Failure MapCall}
    {f : MapInner → Except Failure MapInner} (hf : ∀ m, Goes s id m call (f m)) :
    { s.trackMap stripeIndex id call with reg := (s.reg.onMap id f).2 }.Sound := by
  unfold Registry.onMap
  cases he : s.reg.entries id with
  | none =>
    rw [trackMap_of_not_map fun m hm => nomatch he.symm.trans hm]
    exact h
  | some inner =>
    cases inner with
    | map m =>
      have hg := hf m
      dsimp only
      generalize f m = r at hg
      cases hg with
      | refused e =>
        rw [trackMap_error]
        exact h
      | called hc =>
        cases r with
        | ok m' =>
          refine h.mapped he rfl ?_
          rw [← hc]
          rfl
        | error e =>
          refine h.mapped he rfl ?_
          rw [← hc]
          exact (Function.update_eq_self_iff.mpr he.symm).symm
    | _ =>
      rw [trackMap_of_not_map fun m hm => nomatch he.symm.trans hm]
      exact h

theorem goes_stored {α : Type} {value : SharedValue} {call : SharedValue → MapCall}
    {answer : α → MapAnswer} {f : SharedValue → Except Failure (α × MapInner)}
    (hf : ∀ v, m.exec (s.reg.mapCheck id) (call v) =
      MapInner.exec.allOrNothing m answer (f v)) : Goes s id m ((s.reg.decode value).map call) (do
      let v ← s.reg.decode value
      return (← f v).2) := by
  cases s.reg.decode value with
  | error e => exact .refused e
  | ok v =>
    refine .called ?_
    rw [hf v]
    change settled m (f v >>= fun r => pure r.2) = _
    cases f v <;> rfl

theorem goes_compareAndSet {key : MapKey} {expected new : Option SharedValue} : Goes s id m (do
      let expected ← expected.mapM s.reg.decode
      let new ← new.mapM s.reg.decode
      return .compareAndSet key expected new) (do
      let expected ← expected.mapM s.reg.decode
      let new ← new.mapM s.reg.decode
      return (← m.compareAndSet (s.reg.mapCheck id) key expected new).2) := by
  cases expected.mapM s.reg.decode with
  | error e => exact .refused e
  | ok expected =>
    cases new.mapM s.reg.decode with
    | error e => exact .refused e
    | ok new =>
      refine .called ?_
      change settled m
          (m.compareAndSet (s.reg.mapCheck id) key expected new >>= fun r => pure r.2) =
        (MapInner.exec.allOrNothing m .swapped
          (m.compareAndSet (s.reg.mapCheck id) key expected new)).2
      cases m.compareAndSet (s.reg.mapCheck id) key expected new <;> rfl

theorem Sound.mapSetMany (h : s.Sound) {batch : List (MapKey × SharedValue)} :
    { s.track scan stripeIndex (.mapSetMany id batch) with
      reg := (s.reg.exec scan (.mapSetMany id batch)).2 }.Sound := by
  dsimp only [track, Registry.exec]
  cases he : s.reg.entries id with
  | none =>
    rw [trackMap_of_not_map fun m hm => nomatch he.symm.trans hm]
    exact h
  | some inner =>
    cases inner with
    | map m =>
      dsimp only
      cases batch.mapM fun kv => (s.reg.decode kv.2).map fun v => (kv.1, v) with
      | error e =>
        have her : s.trackMap stripeIndex id (.error e) = s := trackMap_error
        dsimp only [Except.map]
        rw [her]
        exact h
      | ok batch => exact h.mapped he rfl rfl
    | _ =>
      rw [trackMap_of_not_map fun m hm => nomatch he.symm.trans hm]
      exact h

end Map

/-! ### Onces, Mutexes and Pools -/

/-- A book of these has nothing to count but bytes. -/
def isPlain : Inner → Bool
  | .channel _ => false
  | .map _ => false
  | _ => true

theorem Fits.plain (h : b.memBytes = inner.memBytes b.slots + entryFixedOverhead)
    (hp : isPlain inner = true := by rfl) : Fits b inner := by
  refine ⟨h, ?_⟩
  cases inner with
  | channel | map => cases hp
  | _ => trivial

/-- An operation on a Once books what it stores. -/
theorem Sound.onOnce (h : s.Sound) {value : Option SharedValue}
    {f : OnceInner → Except Failure Unit × OnceInner}
    (hf : ∀ o, (f o).2.memBytes =
      o.memBytes + ((o.storing value).map SharedValue.memBytes).getD 0) :
    { s.trackOnce id value with reg := (s.reg.onOnce id f).2 }.Sound := by
  unfold Registry.onOnce trackOnce
  cases he : s.reg.entries id with
  | none => exact h
  | some inner =>
    cases inner with
    | once o =>
      have hsize := hf o
      dsimp only
      cases hs : o.storing value with
      | some v =>
        rw [hs] at hsize
        refine h.adjust (.once (f o).2) he (fun b hb _ => .plain hb) fun base => ?_
        change adjusted (base + o.memBytes) (v.memBytes : Int) = base + (f o).2.memBytes
        rw [adjusted_add_natCast, hsize, Nat.add_assoc]
        rfl
      | none =>
        rw [hs] at hsize
        exact h.kept he (fun b hb => .plain hb) hsize
    | _ => exact h

theorem trackOnce_none : s.trackOnce id none = s := by
  unfold trackOnce
  split
  · next o _ =>
    have hn : o.storing none = none := by
      unfold OnceInner.storing
      split <;> rfl
    rw [hn]
  · rfl

theorem memBytes_trySet (o : OnceInner) (v : SharedValue) :
    (o.trySet v).2.memBytes =
      o.memBytes + ((o.storing (some v)).map SharedValue.memBytes).getD 0 := by
  unfold OnceInner.trySet OnceInner.storing
  cases hs : o.state with
  | ready v | poisoned info => rfl
  | uninit =>
    unfold OnceInner.memBytes
    rw [hs]
    rfl

theorem memBytes_fail {o : OnceInner} (h : o.state = .uninit) (info : PoisonInfo) :
    (o.fail info).memBytes = o.memBytes := by
  unfold OnceInner.fail
  split
  · rfl
  · rw [OnceInner.memBytes, OnceInner.memBytes, h]

theorem memBytes_getOrInit (o : OnceInner) (made : Except OnceFactoryError SharedValue) :
    (o.getOrInit made).2.memBytes =
      o.memBytes + ((o.storing made.toOption).map SharedValue.memBytes).getD 0 := by
  unfold OnceInner.getOrInit OnceInner.storing
  cases hs : o.state with
  | ready v | poisoned info => rfl
  | uninit =>
    cases made with
    | ok v =>
      unfold OnceInner.memBytes
      rw [hs]
      rfl
    | error e =>
      cases e with
      | threw info => exact memBytes_fail hs info
      | notSerialisable => exact memBytes_fail hs _
      | invalid | bailout => rfl

/-- The closure leaves the state as large as it was, where it leaves one that
is stored. -/
def SameSize (s : Books) (id : SharedId) (invoke : Invoke) : Prop :=
  ∀ m, s.reg.entries id = some (.mutex m) → m.corrupted = false →
    ∀ v, invoke.newState = some v → s.reg.decode v = .ok v → v.memBytes = m.state.memBytes

theorem memBytes_apply {m : MutexInner} {newState : Option SharedValue}
    (h : ∀ v, newState = some v → reg.decode v = .ok v → v.memBytes = m.state.memBytes) :
    (m.apply reg.decode newState).memBytes = m.memBytes := by
  unfold MutexInner.apply
  split
  · next v hd =>
    obtain ⟨v', hv', hde⟩ := Option.map_eq_some_iff.mp hd
    obtain rfl : v' = v := by
      unfold Registry.decode at hde
      split at hde
      · exact Except.ok.inj hde
      · cases hde
    rw [MutexInner.memBytes, MutexInner.memBytes, h v' hv' hde]
  · rfl

/-- A steady closure leaves the Mutex as large as it was. -/
theorem memBytes_tryWithLock {m : MutexInner} {invoke : Invoke}
    (h : m.corrupted = false → ∀ v, invoke.newState = some v → reg.decode v = .ok v →
      v.memBytes = m.state.memBytes) :
    (m.tryWithLock reg.decode invoke).2.memBytes = m.memBytes := by
  unfold MutexInner.tryWithLock
  split
  · rfl
  · next hc =>
    have ha := fun newState (hs : invoke.newState = newState) =>
      memBytes_apply (h (Bool.eq_false_iff.mpr hc) · <| hs.trans ·)
    cases invoke with
    | ok newState | threw newState | badReturn newState => exact ha newState rfl
    | bailout | notCallable | panicked => rfl

/-- Both ways of locking leave the same Mutex. -/
theorem withLock_inner (m : MutexInner) (reg : Registry) (invoke : Invoke) :
    (m.withLock reg.decode invoke).2 = (m.tryWithLock reg.decode invoke).2 := by
  unfold MutexInner.withLock MutexInner.tryWithLock
  split
  · rfl
  · cases invoke with
    | ok newState =>
      dsimp only [MutexInner.apply]
      cases newState.map reg.decode with
      | none => rfl
      | some r => cases r <;> rfl
    | _ => rfl

/-- An operation on a Mutex books nothing. -/
theorem Sound.onMutex (h : s.Sound) {f : MutexInner → Except Failure Unit × MutexInner}
    (hf : ∀ m, s.reg.entries id = some (.mutex m) → (f m).2.memBytes = m.memBytes) :
    { s with reg := (s.reg.onMutex id f).2 }.Sound := by
  unfold Registry.onMutex
  cases he : s.reg.entries id with
  | none => exact h
  | some inner =>
    cases inner with
    | mutex m => exact h.kept he (fun b hb => .plain hb) (hf m he)
    | _ => exact h

theorem entry_resize_of_ne {deltas : List Int} (h : a ≠ id) :
    ((s.resize id slots).adjust id deltas).entry a = s.entry a :=
  (entry_adjust_of_ne h).trans (Function.update_of_ne h _ _)

theorem entry_resize_self {deltas : List Int} : ((s.resize id slots).adjust id deltas).entry id =
      ⟨deltas.foldl adjusted (s.entry id).memBytes, (s.entry id).stripes, slots⟩ := by
  rw [entry_adjust_self, resize]
  dsimp only
  rw [Function.update_self]

theorem Sound.resized (h : s.Sound) (hl : s.reg.entries id = some (.scalar .pool)) {delta : Int}
    (hs : ∀ base, adjusted (base + (128 + (s.entry id).slots.toNat * 64)) delta =
      base + (128 + slots.toNat * 64)) : ((s.resize id slots).adjust id [delta]).Sound := by
  have hsa : s.reg.entries = Function.update s.reg.entries id (some (.scalar .pool)) :=
    (Function.update_eq_self_iff.mpr hl.symm).symm
  exact h.booked hl rfl hsa (fun a ha => entry_resize_of_ne ha) entry_resize_self rfl
    (fun b hb _ hsl => .plain (hsl ▸ hb)) hs

theorem Sound.poolTryReserveBudget (h : s.Sound) (hl : s.reg.entries id = some (.scalar .pool))
    (maxSize : UInt64) : (s.poolTryReserveBudget id maxSize).2.Sound := by
  unfold Books.poolTryReserveBudget
  split
  · next hr =>
    have hlt : (s.entry id).slots.toNat < maxSize.toNat := UInt64.lt_iff_toNat_lt.mp hr
    have hmax := maxSize.toNat_lt
    refine h.resized hl fun base => ?_
    change adjusted _ ((64 : Nat) : Int) =
      base + (128 + ((s.entry id).slots.toNat + 1) % 2 ^ 64 * 64)
    rw [adjusted_add_natCast, Nat.mod_eq_of_lt (by omega)]
    omega
  · exact h

theorem Sound.poolReleaseBudget (h : s.Sound) (hl : s.reg.entries id = some (.scalar .pool))
    (hs : (s.entry id).slots ≠ 0) : (s.poolReleaseBudget id).2.Sound := by
  have hpos : 0 < (s.entry id).slots.toNat :=
    Nat.pos_of_ne_zero fun hz => hs (UInt64.toNat_inj.mp hz)
  have hone : (1 : UInt64) ≤ (s.entry id).slots := UInt64.le_iff_toNat_le.mpr hpos
  refine h.resized hl fun base => ?_
  rw [UInt64.toNat_sub_of_le _ _ hone]
  change adjusted _ (-((64 : Nat) : Int)) = base + (128 + ((s.entry id).slots.toNat - 1) * 64)
  rw [adjusted_sub_natCast (by omega)]
  omega

theorem Sound.onPool (h : s.Sound) {f : Except Failure Unit × Books}
    (hf : s.reg.entries id = some (.scalar .pool) → f.2.Sound) : (s.onPool id f).2.Sound := by
  unfold Books.onPool
  split
  · next hl => exact hf hl
  · exact h
  · exact h

/-! ### Inserts and drops -/

theorem fits_new (hc : match inner with
      | .channel c => c.Counted
      | .map m => m.count = 0 ∧ ∀ v ∈ m.values, v ≠ .null
      | _ => True) : Fits ⟨inner.memBytes 0 + entryFixedOverhead, fun _ => 0, 0⟩ inner := by
  refine ⟨rfl, ?_⟩
  cases inner with
  | map m =>
    refine ⟨?_, hc.2⟩
    rw [hc.1]
    exact Finset.sum_const_zero
  | channel c => exact hc
  | _ => trivial

/-- A new entry is booked with its first size. -/
theorem Sound.insert (h : s.Sound)
    (hf : Fits ⟨inner.memBytes 0 + entryFixedOverhead, fun _ => 0, 0⟩ inner) :
    (s.insert S inner).2.Sound := by
  unfold Books.insert
  dsimp only
  split
  · exact h
  · split
    · exact h
    · have hfr : ∀ a, a < s.reg.nextId → a ≠ s.reg.nextId := fun a => Nat.ne_of_lt
      refine ⟨?_, ?_, ?_⟩
      · intro a e ha
        by_cases hid : a = s.reg.nextId
        · rw [hid]
          exact Nat.lt_succ_self _
        · exact Nat.lt_succ_of_lt (h.below a e ((Registry.entries_insert_of_ne hid).symm.trans ha))
      · intro a e ha
        dsimp only
        by_cases hid : a = s.reg.nextId
        · rw [hid, Function.update_self]
          rw [hid] at ha
          exact Option.some.inj (Registry.entries_insert_self.symm.trans ha) ▸ hf
        · rw [Function.update_of_ne hid]
          exact h.fits a e ((Registry.entries_insert_of_ne hid).symm.trans ha)
      · change s.totalBytes + _ = ∑ a ∈ Finset.range (s.reg.nextId + 1), _
        rw [Finset.sum_range_succ, h.total]
        congr 1
        · refine Finset.sum_congr rfl fun a ha => ?_
          have hne := hfr a (Finset.mem_range.mp ha)
          rw [share, share]
          dsimp only
          rw [Registry.entries_insert_of_ne hne, Function.update_of_ne hne]
        · rw [share]
          dsimp only
          rw [Registry.entries_insert_self, Function.update_self]
          rfl

/-- A dropped entry takes its bytes with it. -/
theorem Sound.drop (h : s.Sound) (id : SharedId) : (s.drop id).Sound := by
  unfold Books.drop
  split
  · exact h
  · next hf =>
    split
    · next inner hl =>
      have he : (s.reg.dropEntry id).entries = Function.update s.reg.entries id none ∧
          (s.reg.dropEntry id).nextId = s.reg.nextId := by
        unfold Registry.dropEntry
        rw [if_neg hf]
        split <;> exact ⟨rfl, rfl⟩
      obtain ⟨he, hn⟩ := he
      have ho : ∀ a, a ≠ id → (s.reg.dropEntry id).entries a = s.reg.entries a := by
        intro a ha
        rw [he, Function.update_of_ne ha]
      have hg : (s.reg.dropEntry id).entries id = none := by
        rw [he, Function.update_self]
      have hl' : ∀ a e, (s.reg.dropEntry id).entries a = some e → s.reg.entries a = some e := by
        intro a e ha
        by_cases hid : a = id
        · rw [hid, hg] at ha
          cases ha
        · exact ho a hid ▸ ha
      refine ⟨fun a e ha => hn ▸ h.below a e (hl' a e ha),
        fun a e ha => h.fits a e (hl' a e ha), ?_⟩
      set t : Books :=
        { s with
          reg := s.reg.dropEntry id
          totalEntries := fetchSub s.totalEntries 1
          totalBytes := fetchSub s.totalBytes (s.entry id).memBytes }
      have hs : ∀ a, a ≠ id → t.share a = s.share a := by
        intro a ha
        rw [share, share, show t.reg.entries a = s.reg.entries a from ho a ha]
      have hz : t.share id = 0 := by
        rw [share, show t.reg.entries id = none from hg]
        rfl
      have hsum := sum_range_change (h.below id inner hl) hs
      have hsub : fetchSub s.totalBytes (s.entry id).memBytes + (s.entry id).memBytes =
          s.totalBytes := fetchSub_of_le (h.le_total hl)
      have ht := h.total
      rw [hz, share_of_live hl] at hsum
      change fetchSub s.totalBytes (s.entry id).memBytes =
        ∑ a ∈ Finset.range (s.reg.dropEntry id).nextId, t.share a
      rw [hn]
      omega
    · exact h

/-! ## Every operation -/

/-- What an operation must not do: leave a Mutex a state of another size, send
to a Channel that holds as many items as its counter can say, or give back a
slot of a Pool that has none. -/
def Steady (s : Books) : Act → Prop
  | .op (.mutexWithLock id invoke) => s.SameSize id invoke
  | .mutexTryWithLock id invoke => s.SameSize id invoke
  | .op (.channelSend id _) =>
    ∀ c, s.reg.entries id = some (.channel c) → c.held.length + 1 < 2 ^ 64
  | .poolReleaseBudget id =>
    s.reg.entries id = some (.scalar .pool) → (s.entry id).slots ≠ 0
  | _ => True

theorem Sound.channelSend (h : s.Sound) {bytes : Bytes}
    (hr : ∀ c, s.reg.entries id = some (.channel c) → c.held.length + 1 < 2 ^ 64) :
    { s.track scan stripeIndex (.channelSend id bytes) with
      reg := (s.reg.exec scan (.channelSend id bytes)).2 }.Sound := by
  refine h.onChannel fun c hl hc => ?_
  cases s.reg.buildPayload scan id bytes with
  | error e => exact hc.same rfl rfl
  | ok p => exact ChannelInner.tracks_trySend hc (hr c hl)

/-- **Every operation keeps the books**, unless it is one of those. -/
theorem Sound.exec (h : s.Sound) {act : Act} (hs : s.Steady act) :
    (s.exec S scan stripeIndex act).2.Sound := by
  cases act with
  | mutexTryWithLock id invoke =>
    exact h.onMutex fun m hl => memBytes_tryWithLock fun hf => hs m hl hf
  | poolTryReserveBudget id maxSize =>
    exact h.onPool fun hl => h.poolTryReserveBudget hl maxSize
  | poolReleaseBudget id => exact h.onPool fun hl => h.poolReleaseBudget hl (hs hl)
  | op op =>
    cases op with
    | createScalar typeTag | createOnce failureMode => exact h.insert (fits_new trivial)
    | createMutex initial =>
      dsimp only [Books.exec]
      cases s.reg.decode initial with
      | ok v => exact h.insert (fits_new trivial)
      | error e => exact h
    | createChannel capacity => exact h.insert (fits_new rfl)
    | createMap maxEntries => exact h.insert (fits_new ⟨rfl, nofun⟩)
    | drop id => exact h.drop id
    | mapSet id key value | mapSwap id key value | mapSetIfAbsent id key value =>
      exact h.onMap fun m => goes_stored fun v => rfl
    | mapCompareAndSet id key expected new => exact h.onMap fun m => goes_compareAndSet
    | mapSetMany id batch => exact h.mapSetMany
    | mapPop id key | mapClear id => exact h.onMap fun m => .called rfl
    | channelSend id bytes => exact h.channelSend hs
    | channelRecv id => exact h.onChannel fun c _ hc => ChannelInner.tracks_tryRecv hc
    | channelClose id => exact h.onChannel_quiet fun c hc => ChannelInner.tracks_close hc
    | channelParkRecv id =>
      exact h.onChannel fun c _ hc => ChannelInner.tracks_registerRecvWaiter hc _
    | channelParkSend id =>
      exact h.onChannel_quiet fun c hc => ChannelInner.tracks_registerSendWaiter hc _
    | cancelPromise promise | dropReceiver promise => exact h.registry rfl rfl rfl rfl
    | onceTrySet id value =>
      dsimp only [Books.exec, track, Registry.exec]
      cases s.reg.decode value with
      | ok v => exact h.onOnce fun o => memBytes_trySet o v
      | error e =>
        have hq : s.trackOnce id (Except.error e : Except Failure SharedValue).toOption = s :=
          trackOnce_none
        rw [hq]
        exact h
    | onceGetOrInit id factory => exact h.onOnce fun o => memBytes_getOrInit o _
    | mutexWithLock id invoke =>
      refine h.onMutex fun m hl => ?_
      rw [withLock_inner]
      exact memBytes_tryWithLock fun hf => hs m hl hf

/-- Every operation is steady where it is done. -/
abbrev AllSteady (S : Accounting.Setting) (scan : Bytes → Option (List SharedRef))
    (stripeIndex : MapKey → Fin stripeCount) (s : Books) (acts : List Act) : Prop :=
  Runs.Always (fun s act => (s.exec S scan stripeIndex act).2) (fun act s => s.Steady act) acts s

theorem Sound.run (h : s.Sound) {acts : List Act}
    (hs : AllSteady S scan stripeIndex s acts) : (s.run S scan stripeIndex acts).Sound :=
  Runs.foldl_invariant (fun _ _ h hs => h.exec hs) h hs

/-- What an entry takes: its content and the fixed overhead. -/
def trueBytes (s : Books) (id : SharedId) : Nat :=
  match s.reg.entries id with
  | some inner => inner.memBytes (s.entry id).slots + entryFixedOverhead
  | none => 0

/-- Every live entry is booked as large as it is, and so is the total. -/
structure Exact (s : Books) : Prop where
  recorded : ∀ id, (s.reg.entries id).isSome → (s.entry id).memBytes = s.trueBytes id
  total : s.totalBytes = ∑ id ∈ Finset.range s.reg.nextId, s.trueBytes id

theorem Sound.exact (h : s.Sound) : s.Exact := by
  have hr : ∀ id inner, s.reg.entries id = some inner →
      (s.entry id).memBytes = s.trueBytes id := by
    intro id inner hl
    rw [trueBytes, hl]
    exact (h.fits id inner hl).booked
  refine ⟨fun id hs => ?_, ?_⟩
  · obtain ⟨inner, hl⟩ := Option.isSome_iff_exists.mp hs
    exact hr id inner hl
  · rw [h.total]
    refine Finset.sum_congr rfl fun id _ => ?_
    cases hl : s.reg.entries id with
    | some inner => rw [share_of_live hl, hr id inner hl]
    | none =>
      rw [share, trueBytes, hl]
      rfl

/-- **The books are exact.** After every sequence of operations that leave each
Mutex a state as large as the one they replace, and give back no slot a Pool does
not have, the bytes recorded for each live entry are what it takes, and the total
is their sum. -/
theorem books_exact (S : Accounting.Setting) (scan : Bytes → Option (List SharedRef))
    (stripeIndex : MapKey → Fin stripeCount) (config : SharedConfig) (seed : SharedId)
    (acts : List Act) (h : AllSteady S scan stripeIndex (empty config seed) acts) :
    ((empty config seed).run S scan stripeIndex acts).Exact :=
  ((sound_empty config seed).run h).exact

/-! ## Two runs -/

/-- Limits that no run here meets. -/
def roomy : Accounting.Setting where
  maxEntries := 100
  maxBytes := 100000
  shards := 1
  shardOf := fun _ => 0
  walker := fun _ _ => [.ok ()]

def limits : SharedConfig where
  cycleDetectDepth := 8
  cycleDetectEdges := 64

def noRefs : Bytes → Option (List SharedRef) := fun _ => none

/-- A Mutex that goes from one number to another, a Once, a Map, a Channel and a
Pool. -/
def steadyActs : List Act :=
  [.op (.createMutex (.long 1)), .op (.mutexWithLock 1 (.ok (some (.long 2)))),
    .mutexTryWithLock 1 (.ok (some (.long 3))), .op (.createOnce .reset),
    .op (.onceTrySet 2 (.long 7)), .op (.createMap none), .op (.mapSet 3 (.int 5) (.long 9)),
    .op (.createChannel 4), .op (.channelSend 4 [1, 2]), .op (.createScalar .pool),
    .poolTryReserveBudget 5 2, .poolReleaseBudget 5, .op (.drop 2)]

theorem allSteady_steadyActs :
    AllSteady roomy noRefs (fun _ => MapCell.firstStripe) (empty limits 1) steadyActs := by
  refine ⟨trivial, ?_, ?_, trivial, trivial, trivial, trivial, trivial, ?_, trivial, trivial, ?_,
    trivial, trivial⟩
  · rintro m ⟨⟩ - v ⟨⟩ -
    rfl
  · rintro m ⟨⟩ - v ⟨⟩ -
    rfl
  · rintro c ⟨⟩
    decide
  · intro _
    decide +kernel

theorem books_exact_steadyActs :
    ((empty limits 1).run roomy noRefs (fun _ => MapCell.firstStripe) steadyActs).Exact ∧
      ((empty limits 1).run roomy noRefs (fun _ => MapCell.firstStripe) steadyActs).totalBytes =
        1288 :=
  ⟨books_exact _ _ _ _ _ _ allSteady_steadyActs, by decide +kernel⟩

/-- A Mutex made with nothing in it, and a closure that puts a number there. -/
def growingActs : List Act :=
  [.op (.createMutex .null), .op (.mutexWithLock 1 (.ok (some (.long 7))))]

theorem withLock_escapes_the_books :
    ((empty limits 1).run roomy noRefs (fun _ => MapCell.firstStripe) growingActs).trueBytes 1 =
        240 ∧
      (((empty limits 1).run roomy noRefs (fun _ => MapCell.firstStripe) growingActs).entry
        1).memBytes = 233 ∧
      ((empty limits 1).run roomy noRefs (fun _ => MapCell.firstStripe) growingActs).totalBytes =
        233 := by
  refine ⟨?_, ?_, ?_⟩
  all_goals decide +kernel

end Books

end OxPhp.Shared
