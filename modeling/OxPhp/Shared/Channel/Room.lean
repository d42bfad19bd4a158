import OxPhp.Lib.Ledger
import OxPhp.Shared.Channel.Waiters

/-!
# Room for parked senders

Room in an open channel that a parked sender could use is never forgotten while
some operation has it in mind.  The one exception is a step of another operation:
an item pushed back to the stash makes the two reads of `occupancy` count it twice.
-/

namespace OxPhp.Shared.Channel

open OxPhp.Async Interleave

/-! ## Units -/

namespace Pc

/-- The unit of room an operation has in mind. -/
def unit (s : State) : Pc → Nat
  | sendLoadClosed _ _ => 1
  | sendIndex _ _ => 1
  | sendDeposit _ _ => 1
  | offerPop _ _ => 1
  | offerResolve _ _ _ => 1
  | roomBuffer _ => 1
  | roomFront _ buffered =>
    if buffered + s.channel.recvFront.length < s.channel.capacity then 1 else 0
  | wakePop _ => 1
  | wakeResolve _ _ => 1
  | stashIndex _ _ => 1
  | stashPush _ _ => 1
  | takenPending _ _ => 1
  | takenIndex _ _ => 1
  | registerResolve _ _ => 1
  | _ => 0

/-- The unit a step gives to a sender it wakes. -/
def given (s : State) : Pc → Nat
  | wakeResolve _ id => if s.senders.Live id then 1 else 0
  | registerResolve _ _ => 1
  | _ => 0

/-- A sender that found the channel full and has yet to park. -/
def parking : Pc → Bool
  | sendRollback _ _ => true
  | sendAlloc => true
  | registerSend _ => true
  | _ => false

def registersSend : Pc → Bool
  | sendAlloc => true
  | registerSend _ => true
  | registerResolve _ _ => true
  | _ => false

/-- A position reached on a channel that nobody closes. -/
def onOpen : Pc → Bool
  | takenPending .recvLast _ => false
  | takenIndex .recvLast _ => false
  | waitLast => false
  | closeSwap => false
  | closeSweepRecv => false
  | closeCancel _ => false
  | closeSweepSend => false
  | closeRefuse _ => false
  | registerResolve _ (.value _ _) => true
  | registerResolve _ _ => false
  | _ => true

/-- A position that may follow when no item moves and no parked sender is taken:
a registration is not started within another operation, only a sender that
rolls back finds the channel full, and a drain looks into the buffer with the
stash empty. -/
def leadsTo (s : State) (pc : Pc) : Next Pc Answer → Bool
  | .go (.wakeResolve _ _) => false
  | .go (.drainBuffer _) => s.channel.recvFront.isEmpty
  | .go pc' =>
    pc'.onOpen && (!pc'.parking || pc.parking) && (!pc'.registersSend || pc.registersSend)
  | .ret (.full _) => pc.parking
  | .ret _ => true

end Pc

/-- The items in the channel and the slots banked for senders. -/
def State.room (s : State) : Nat :=
  s.channel.buffer.length + s.channel.recvFront.length + s.channel.sendWaiters.credits

/-- What a step on an open channel does to room. -/
structure Supplies (s : State) (pc : Pc) (next : Next Pc Answer) (s' : State) : Prop where
  capacity : s'.channel.capacity = s.channel.capacity
  closed : s'.channel.closed = false
  supply : s.channel.capacity ≤ s'.room ∨
    s.room + pc.unit s ≤ s'.room + next.holds (Pc.unit s') (fun _ => 0) + pc.given s
  recvFront : s'.channel.recvFront.length ≤ s.channel.recvFront.length ∨ ∃ d p, pc = .stashPush d p
  bank : s.channel.sendWaiters.ids = [] ∨ s.channel.sendWaiters.credits = 0 →
    s'.channel.sendWaiters.ids = [] ∨ s'.channel.sendWaiters.credits = 0
  ids : ∀ id ∈ s'.channel.sendWaiters.ids, id ∈ s.channel.sendWaiters.ids ∨ pc = .registerSend id
  goesOn : ∀ pc' ∈ next.pcs, pc'.onOpen = true ∧
    (pc'.parking = true → pc.parking = true ∨ s.channel.capacity ≤ s'.room) ∧
    (pc'.registersSend = true → pc.registersSend = true)
  waking : ∀ k id, next = .go (.wakeResolve k id) → id ∈ s.channel.sendWaiters.ids
  full : ∀ q, next = .ret (.full q) → pc.parking = true
  refills : s'.channel.buffer ≠ [] → s.channel.buffer ≠ [] ∨ ∃ p, next = .go (.sendBump p)
  restashes : s'.channel.recvFront ≠ [] →
    s.channel.recvFront ≠ [] ∨ ∃ d, next = .go (.stashBump d)
  empties : ∀ d, next = .go (.drainBuffer d) → s.channel.recvFront = []

/-! ## Steps -/

section Steps

variable {s s' : State} {pc : Pc} {next : Next Pc Answer} {p : Payload}

structure SameRoom (s s' : State) : Prop where
  capacity : s'.channel.capacity = s.channel.capacity
  closed : s'.channel.closed = s.channel.closed
  buffer : s'.channel.buffer = s.channel.buffer
  recvFront : s'.channel.recvFront = s.channel.recvFront
  sendWaiters : s'.channel.sendWaiters = s.channel.sendWaiters

theorem leadsTo_next (h : pc.leadsTo s next = true) {bound : Prop} : ∀ pc' ∈ next.pcs,
    pc'.onOpen = true ∧ (pc'.parking = true → pc.parking = true ∨ bound) ∧
      (pc'.registersSend = true → pc.registersSend = true) := by
  intro pc' hpc'
  cases next with
  | ret answer => cases hpc'
  | go pc'' =>
    cases List.mem_singleton.mp hpc'
    unfold Pc.leadsTo at h
    split at h
    · cases h
    · next heq =>
      cases heq
      exact ⟨rfl, nofun, nofun⟩
    · next heq =>
      cases heq
      simp only [Bool.and_eq_true, Bool.or_eq_true, Bool.not_eq_true'] at h
      obtain ⟨⟨ho, hp⟩, hreg⟩ := h
      refine ⟨ho, fun hpa => .inl ?_, fun hr => ?_⟩
      · simpa [hpa] using hp
      · simpa [hr] using hreg
    · next heq => cases heq
    · next heq => cases heq

variable {id : PromiseId} {full : Pc}

theorem leadsTo_waking (h : pc.leadsTo s next = true) {k : AfterWake}
    {goal : Prop} : next = .go (.wakeResolve k id) → goal := by
  rintro rfl
  cases h

theorem leadsTo_full (h : pc.leadsTo s next = true) (q : Payload) :
    next = .ret (.full q) → pc.parking = true := by
  rintro rfl
  exact h

theorem leadsTo_empties (h : pc.leadsTo s next = true) (d : Drainer) :
    next = .go (.drainBuffer d) → s.channel.recvFront = [] := by
  rintro rfl
  exact List.isEmpty_iff.mp h

theorem SameRoom.room (h : SameRoom s s') : s'.room = s.room := by
  rw [State.room, State.room, h.buffer, h.recvFront, h.sendWaiters]

theorem Supplies.still (ho : s.channel.closed = false) (hs : SameRoom s s')
    (hunit : pc.unit s ≤ next.holds (Pc.unit s') (fun _ => 0) + pc.given s)
    (hn : pc.leadsTo s next = true) : Supplies s pc next s' where
  capacity := hs.capacity
  closed := hs.closed.trans ho
  supply := by
    have hr := hs.room
    exact .inr (by omega)
  recvFront := .inl (by rw [hs.recvFront])
  bank := by
    rw [hs.sendWaiters]
    exact id
  ids := by
    rw [hs.sendWaiters]
    exact fun id hid => .inl hid
  goesOn := leadsTo_next hn
  waking := fun _ _ => leadsTo_waking hn
  full := leadsTo_full hn
  refills := by
    rw [hs.buffer]
    exact .inl
  restashes := by
    rw [hs.recvFront]
    exact .inl
  empties := leadsTo_empties hn

theorem supplies_placed (place : Places pc p full) (ho : s.channel.closed = false) :
    Supplies s pc (.go (.sendBump p))
      (s.set { s.channel with buffer := s.channel.buffer ++ [p] }) := by
  have hunit : pc.unit s ≤ 1 := by
    cases place with
    | send mode p => exact le_rfl
    | poll wait p => exact Nat.zero_le _
  refine ⟨rfl, ho, .inr ?_, .inl le_rfl, id, fun _ hid => .inl hid, ?_, by simp, by simp,
    fun _ => .inr ⟨p, rfl⟩, .inl, by simp⟩
  · simp only [State.room, State.set, List.length_append, List.length_singleton]
    omega
  · simp [Pc.onOpen, Pc.parking, Pc.registersSend]

theorem supplies_noRoom (place : Places pc p full) (ho : s.channel.closed = false)
    (hr : s.channel.capacity ≤ s.channel.buffer.length) : Supplies s pc (.go full) s := by
  have hb : s.channel.capacity ≤ s.room := by
    unfold State.room
    omega
  refine ⟨rfl, ho, .inl hb, .inl le_rfl, id, fun _ hid => .inl hid, fun pc' hpc' => ?_, ?_,
    by simp, .inl, .inl, ?_⟩
  · cases List.mem_singleton.mp hpc'
    cases place <;> exact ⟨rfl, fun _ => .inr hb, id⟩
  · cases place <;> simp
  · cases place <;> simp

theorem supplies_pop {k : Taker} {c' : ChannelInner} (ho : s.channel.closed = false)
    (hk : k ≠ .recvLast) (hunit : pc.unit s = 0) (hc : c'.capacity = s.channel.capacity)
    (hcl : c'.closed = s.channel.closed) (hw : c'.sendWaiters = s.channel.sendWaiters)
    (hf : c'.recvFront.length ≤ s.channel.recvFront.length)
    (hite : s.channel.buffer.length + s.channel.recvFront.length =
      c'.buffer.length + c'.recvFront.length + 1) (hr : c'.buffer ≠ [] → s.channel.buffer ≠ [])
    (hre : c'.recvFront ≠ [] → s.channel.recvFront ≠ []) :
    Supplies s pc (.go (.takenPending k p)) (s.set c') where
  capacity := hc
  closed := hcl.trans ho
  supply := by
    refine .inr ?_
    have ht : Next.holds (Pc.unit (s.set c')) (fun _ => 0)
        (.go (.takenPending k p) : Next Pc Answer) = 1 := rfl
    rw [ht, hunit]
    simp only [State.room, State.set, hw]
    omega
  recvFront := .inl hf
  bank := by
    simp only [State.set, hw]
    exact id
  ids := by
    simp only [State.set, hw]
    exact fun id hid => .inl hid
  goesOn := by
    intro pc' hpc'
    cases List.mem_singleton.mp hpc'
    refine ⟨?_, nofun, nofun⟩
    cases k <;> first | rfl | exact absurd rfl hk
  waking := nofun
  full := nofun
  refills := fun h => .inl (hr h)
  restashes := fun h => .inl (hre h)
  empties := nofun

theorem supplies_front {k : Taker} {otherwise : Pc} {rest : List Payload}
    (front : Fronts pc k otherwise) (ho : s.channel.closed = false)
    (hfirst : s.channel.recvFront = p :: rest) :
    Supplies s pc (.go (.takenPending k p)) (s.set { s.channel with recvFront := rest }) := by
  have hk : k ≠ .recvLast := by cases front <;> simp
  refine supplies_pop ho hk ?_ rfl rfl rfl ?_ ?_ id fun _ => by simp [hfirst]
  · cases front <;> rfl
  · simp [hfirst]
  · simp only [hfirst, List.length_cons]
    omega

theorem supplies_buffer {k : Taker} {empty : Next Pc Answer} {keepRx : Bool} {rest : List Payload}
    (buffer : Buffers pc k empty keepRx) (hpc : pc.onOpen = true) (ho : s.channel.closed = false)
    (hfirst : s.channel.buffer = p :: rest) :
    Supplies s pc (.go (.takenPending k p)) (s.set { s.channel with buffer := rest }) := by
  have hk : k ≠ .recvLast := by
    rintro rfl
    cases buffer
    cases hpc
  refine supplies_pop ho hk ?_ rfl rfl rfl le_rfl ?_ (fun _ => by simp [hfirst]) id
  · cases buffer <;> rfl
  · simp only [hfirst, List.length_cons]
    omega

theorem supplies_banked {k : AfterWake} (ho : s.channel.closed = false)
    (hn : (Pc.wakePop k).leadsTo s next = true) : Supplies s (.wakePop k) next s.bankSlot := by
  refine ⟨rfl, ho, ?_, .inl le_rfl, fun _ => .inl rfl, by simp [State.bankSlot, State.set],
    leadsTo_next hn, fun _ _ => leadsTo_waking hn, leadsTo_full hn, .inl, .inl,
    leadsTo_empties hn⟩
  by_cases hf : s.channel.sendWaiters.credits + 1 ≤ s.channel.capacity
  · refine .inr ?_
    simp only [State.room, State.bankSlot, State.set, Pc.unit, Nat.min_eq_left hf]
    omega
  · refine .inl ?_
    simp only [State.room, State.bankSlot, State.set]
    omega

theorem supplies_waking {k : AfterWake} {rest : List PromiseId}
    (ho : s.channel.closed = false) (hfirst : s.channel.sendWaiters.ids = id :: rest) :
    Supplies s (.wakePop k) (.go (.wakeResolve k id)) (s.setSendIds rest) := by
  refine ⟨rfl, ho, .inr ?_, .inl le_rfl, fun hb => ?_, fun id' hid => .inl ?_, ?_, ?_,
    by simp, .inl, .inl, by simp⟩
  · simp only [State.room, State.setSendIds, State.set, Next.holds, Pc.unit]
    omega
  · rw [hfirst] at hb
    exact .inr (hb.resolve_left (List.cons_ne_nil _ _))
  · rw [hfirst]
    exact List.mem_cons_of_mem _ hid
  · simp [Pc.onOpen, Pc.parking, Pc.registersSend]
  · rintro k' id' ⟨⟩
    rw [hfirst]
    exact List.mem_cons_self

theorem supplies_redeemed (ho : s.channel.closed = false) (hc : 0 < s.channel.sendWaiters.credits) :
    Supplies s (.registerSend id) (.go (.registerResolve id wakeValue)) s.redeemSlot := by
  refine ⟨rfl, ho, .inr ?_, .inl le_rfl, fun hb => ?_, fun _ hid => .inl hid,
    by simp [Pc.onOpen, wakeValue, Pc.parking, Pc.registersSend], by simp, by simp, .inl, .inl,
    by simp⟩
  · simp only [State.room, State.redeemSlot, State.set, Next.holds, Pc.unit]
    omega
  · exact hb.imp_right fun hz => by omega

theorem supplies_parked (ho : s.channel.closed = false) (hc : s.channel.sendWaiters.credits = 0) :
    Supplies s (.registerSend id) (.ret (.sendRegistered id))
      (s.setSendIds (s.channel.sendWaiters.ids ++ [id])) := by
  refine ⟨rfl, ho, .inr (Nat.le_refl _), .inl le_rfl, fun _ => .inr hc, fun id' hid => ?_,
    Next.forall_pcs_ret _, by simp, by simp, .inl, .inl, by simp⟩
  exact (List.mem_append.mp hid).imp_right fun hnew => by rw [List.mem_singleton.mp hnew]

theorem supplies_stashPush {d : Drainer} (ho : s.channel.closed = false) :
    Supplies s (.stashPush d p) (.go (.stashBump d)) (s.set (s.channel.pushFront p)) := by
  refine ⟨rfl, ho, .inr ?_, .inr ⟨d, p, rfl⟩, id, fun _ hid => .inl hid,
    by simp [Pc.onOpen, Pc.parking, Pc.registersSend], by simp, by simp, .inl,
    fun _ => .inr ⟨d, rfl⟩, by simp⟩
  simp only [State.room, State.set, ChannelInner.pushFront, List.length_append,
    List.length_singleton, Next.holds, Pc.unit]
  omega

theorem supplies_roomBuffer (ho : s.channel.closed = false) :
    Supplies s (.roomBuffer p) (.go (.roomFront p s.channel.buffer.length)) s := by
  refine ⟨rfl, ho, ?_, .inl le_rfl, id, fun _ hid => .inl hid,
    by simp [Pc.onOpen, Pc.parking, Pc.registersSend], by simp, by simp, .inl, .inl, by simp⟩
  by_cases hr : s.channel.buffer.length + s.channel.recvFront.length < s.channel.capacity
  · refine .inr ?_
    simp only [Next.holds, Pc.unit, if_pos hr]
    omega
  · refine .inl ?_
    unfold State.room
    omega

/-- **A step on an open channel forgets no room**, if it is not another
operation's. -/
theorem supplies_of_act (ho : s.channel.closed = false) (hpc : pc.onOpen = true)
    (h : (next, s') ∈ act pc s) : Supplies s pc next s' := by
  cases acts_of_act h with
  | sendClosed closed | pollClosed closed | waitClosed closed | registerClosed closed
  | recvDrained closed | parkClosed closed | closeAgain closed =>
    rw [ho] at closed
    cases closed
  | roomBuffer => exact supplies_roomBuffer ho
  | roomFree room =>
    refine .still ho ⟨rfl, rfl, rfl, rfl, rfl⟩ ?_ rfl
    simp only [Pc.unit, if_pos room, Next.holds]
    omega
  | roomNone room =>
    refine .still ho ⟨rfl, rfl, rfl, rfl, rfl⟩ ?_ rfl
    simp only [Pc.unit, if_neg room]
    omega
  | bankedReceived none | bankedSent none | bankedDrain none => exact supplies_banked ho rfl
  | waking first => exact supplies_waking ho first
  | wokeReceived live | wokeSent live | wokeDrain live =>
    refine .still ho ⟨rfl, rfl, rfl, rfl, rfl⟩ ?_ rfl
    simp only [Pc.unit, Pc.given, if_pos live]
    omega
  | redeemed _ credits => exact supplies_redeemed ho credits
  | parked _ credits => exact supplies_parked ho credits
  | registerResolve =>
    exact .still ho ⟨rfl, rfl, rfl, rfl, rfl⟩ (Nat.le_add_left _ _) rfl
  | stashPush => exact supplies_stashPush ho
  | placed place => exact supplies_placed place ho
  | noRoom place room => exact supplies_noRoom place ho room
  | frontTaken front first => exact supplies_front front ho first
  | frontEmpty front none =>
    refine .still ho ⟨rfl, rfl, rfl, rfl, rfl⟩ ?_ ?_
    · cases front <;> exact Nat.zero_le _
    · cases front with
      | drain d => exact List.isEmpty_iff.mpr none
      | recv mode | wait wait => rfl
  | bufferTaken buffer _ first => exact supplies_buffer buffer hpc ho first
  | bufferEmpty buffer =>
    cases buffer <;> exact .still ho ⟨rfl, rfl, rfl, rfl, rfl⟩ (Nat.zero_le _) rfl
  | @takenPending k =>
    cases k with
    | recv | drain d =>
      exact .still ho ⟨rfl, rfl, rfl, rfl, rfl⟩ (Nat.le_add_right _ _) rfl
    | recvLast => cases hpc
  | _ =>
    first
    | exact .still ho ⟨rfl, rfl, rfl, rfl, rfl⟩ (Nat.le_add_right _ _) rfl
    | exact .still ho ⟨rfl, rfl, rfl, rfl, rfl⟩ (Nat.zero_le _) rfl
    | cases hpc

end Steps

end OxPhp.Shared.Channel
