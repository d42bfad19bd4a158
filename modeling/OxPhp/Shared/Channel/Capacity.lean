import OxPhp.Shared.Channel.CloseSweep

/-!
# Capacity, one operation at a time

The queue bounds the buffer, not the front stash.  An item goes to the stash when
a drain has popped it and every parked receiver turned out to be gone, which does
not happen with one operation at a time.
-/

namespace OxPhp.Shared.Channel

open ByteStr OxPhp.Async Interleave

/-! ## Construction -/

/-- Whether the slot array fits the budget; a product beyond 64 bits does not. -/
def channelCapacityFits (slotBytes capacity budget : Nat) : Bool :=
  capacity * slotBytes < 2 ^ 64 && capacity * slotBytes ≤ budget

def effectiveChannelBudget (slotBytes configured : Nat) : Nat := max configured slotBytes

/-- `oxphp_shared_channel_create`; the size of a slot is the allocator's. -/
def create (slotBytes maxChannelBytes capacity : Nat) : Except Failure ChannelInner :=
  let budget := effectiveChannelBudget slotBytes maxChannelBytes
  if capacity = 0 then .error ⟨.type, str "Channel capacity must be >= 1"⟩
  else if channelCapacityFits slotBytes capacity budget then .ok (.new capacity)
  else
    let bytes :=
      if capacity * slotBytes < 2 ^ 64 then toString (capacity * slotBytes) else "overflow"
    .error ⟨.capacityExceeded,
      str ("Channel capacity " ++ toString capacity ++ " would allocate ~" ++ bytes ++
        " bytes for its slot array, exceeding SHARED_MAX_CHANNEL_BYTES (" ++ toString budget ++
        "); lower the capacity or raise the budget")⟩

theorem create_eq_ok {slotBytes maxChannelBytes capacity : Nat} {channel : ChannelInner}
    (h : create slotBytes maxChannelBytes capacity = .ok channel) :
    0 < capacity ∧ channel = .new capacity := by
  unfold create at h
  dsimp only at h
  split at h
  · cases h
  · split at h
    · cases h
      exact ⟨by omega, rfl⟩
    · cases h

/-! ## Between and during operations -/

/-- The channel holds no more than its queue has room for. -/
structure Tight (capacity : Nat) (s : State) : Prop where
  size : s.channel.capacity = capacity
  recvFront : s.channel.recvFront = []
  buffer : s.channel.buffer.length ≤ capacity

/-- The waiter of a registration in progress is parked last and still there. -/
structure Waits (s : State) (id : PromiseId) : Prop where
  live : s.senders.Live id
  notSend : id ∉ s.channel.sendWaiters.ids
  last : ∃ front, s.channel.recvWaiters = front ++ [id] ∧ id ∉ front

/-- The drain of a registration whose waiter can take an item. -/
def Serves (s : State) (d : Drainer) : Prop := ∃ id, d = .register id ∧ Waits s id

/-- Nobody is parked, or the drain's own waiter is. -/
def Attended (s : State) (d : Drainer) : Prop := s.channel.recvWaiters = [] ∨ Serves s d

/-- A promise made for a registration that has not parked it. -/
structure Fresh (s : State) (id : PromiseId) : Prop where
  live : s.senders.Live id
  notRecv : id ∉ s.channel.recvWaiters
  notSend : id ∉ s.channel.sendWaiters.ids

def HasRoom (s : State) : Prop := s.channel.buffer.length < s.channel.capacity

/-- What is known where an operation stands, no other being in progress. -/
def At (s : State) : Pc → Prop
  | .sendIndex _ _ => s.channel.recvWaiters = []
  | .sendDeposit _ _ => s.channel.recvWaiters = []
  | .sendRollback _ _ => s.channel.recvWaiters = []
  | .sendBump _ => s.channel.recvWaiters = []
  | .pollIndex _ _ => s.channel.recvWaiters = []
  | .pollLoadClosed _ _ => s.channel.recvWaiters = []
  | .pollDeposit _ _ => s.channel.recvWaiters = []
  | .drainPeek d => Attended s d
  | .drainFront d => Serves s d
  | .drainBuffer d => Serves s d
  | .takenPending (.drain d) _ => HasRoom s ∧ Serves s d
  | .takenIndex (.drain d) _ => HasRoom s ∧ Serves s d
  | .offerPop (.drain d) _ => HasRoom s ∧ Serves s d
  | .offerResolve (.drain d) id _ =>
    HasRoom s ∧ ((s.senders.Live id ∧ s.channel.recvWaiters = []) ∨
      ∃ own, d = .register own ∧ id ≠ own ∧ Waits s own)
  | .wakePop (.drain d) => Attended s d
  | .wakeResolve (.drain d) id =>
    s.channel.recvWaiters = [] ∨ ∃ own, d = .register own ∧ id ≠ own ∧ Waits s own
  | .stashIndex _ _ => False
  | .stashPush _ _ => False
  | .stashBump _ => False
  | .registerLoadClosed id => Fresh s id
  | .registerLoadPending id => Fresh s id
  | .registerPush id => Fresh s id
  | _ => True

structure Idle (capacity : Nat) (s : State) : Prop where
  tight : Tight capacity s
  aged : Aged s

structure Busy (capacity : Nat) (s : State) (pc : Pc) : Prop where
  tight : Tight capacity s
  aged : Aged s
  heldAged : ∀ id ∈ pc.held, id < s.senders.nextId
  at_ : At s pc

/-! ## Steps -/

section Steps

variable {capacity : Nat} {s s' : State} {pc : Pc} {next : Next Pc Answer} {p : Payload}
  {d : Drainer} {id : PromiseId}

/-- What a step has to leave behind besides the ages of the promises. -/
structure Steady (capacity : Nat) (next : Next Pc Answer) (s' : State) : Prop where
  tight : Tight capacity s'
  at_ : ∀ pc ∈ next.pcs, At s' pc

theorem Steady.go {pc' : Pc} (ht : Tight capacity s') (hat : At s' pc') :
    Steady capacity (.go pc') s' :=
  ⟨ht, fun _ hpc => List.mem_singleton.mp hpc ▸ hat⟩

theorem Steady.ret {answer : Answer} (ht : Tight capacity s') : Steady capacity (.ret answer) s' :=
  ⟨ht, nofun⟩

theorem Waits.congr (h : Waits s id) (hs : s'.senders = s.senders)
    (hr : s'.channel.recvWaiters = s.channel.recvWaiters)
    (hse : s'.channel.sendWaiters.ids = s.channel.sendWaiters.ids) : Waits s' id :=
  ⟨hs ▸ h.live, hse ▸ h.notSend, hr ▸ h.last⟩

theorem Serves.congr (h : Serves s d) (hs : s'.senders = s.senders)
    (hr : s'.channel.recvWaiters = s.channel.recvWaiters)
    (hse : s'.channel.sendWaiters.ids = s.channel.sendWaiters.ids) : Serves s' d := by
  obtain ⟨own, rfl, hw⟩ := h
  exact ⟨own, rfl, hw.congr hs hr hse⟩

theorem Waits.resolve {own : PromiseId} {payload : PromisePayload (List SharedRef)}
    (h : Waits s own) (hne : id ≠ own) : Waits (s.resolve id payload) own :=
  ⟨(Senders.live_resolve (Ne.symm hne)).mpr h.live, h.notSend, h.last⟩

theorem Tight.placed (h : Tight capacity s) (hr : HasRoom s) :
    Tight capacity (s.set { s.channel with buffer := s.channel.buffer ++ [p] }) := by
  refine ⟨h.size, h.recvFront, ?_⟩
  rw [HasRoom, h.size] at hr
  simpa [State.set] using Nat.succ_le_of_lt hr

theorem Tight.popped {rest : List Payload} (h : Tight capacity s)
    (hb : s.channel.buffer = p :: rest) : HasRoom (s.set { s.channel with buffer := rest }) ∧
      Tight capacity (s.set { s.channel with buffer := rest }) := by
  have hbo := h.buffer
  rw [hb, List.length_cons] at hbo
  exact ⟨Nat.lt_of_lt_of_eq hbo h.size.symm, h.size, h.recvFront, Nat.le_of_succ_le hbo⟩

theorem at_offered {rest : List PromiseId} (hr : HasRoom s) (hs : Serves s d)
    (hfirst : s.channel.recvWaiters = id :: rest) :
    At (s.setRecvWaiters rest) (.offerResolve (.drain d) id p) := by
  obtain ⟨own, rfl, hl, hn, front, hre, hf⟩ := hs
  rw [hfirst] at hre
  cases front with
  | nil =>
    cases hre
    exact ⟨hr, .inl ⟨hl, rfl⟩⟩
  | cons first front =>
    cases hre
    obtain ⟨hne, hres⟩ := not_or.mp (mt List.mem_cons.mpr hf)
    exact ⟨hr, .inr ⟨own, rfl, Ne.symm hne, hl, hn, front, rfl, hres⟩⟩

theorem at_waking {rest : List PromiseId} (hat : Attended s d)
    (hfirst : s.channel.sendWaiters.ids = id :: rest) :
    At (s.setSendIds rest) (.wakeResolve (.drain d) id) := by
  refine hat.imp_right ?_
  rintro ⟨own, rfl, hl, hn, hlast⟩
  rw [hfirst] at hn
  obtain ⟨hne, hr⟩ := not_or.mp (mt List.mem_cons.mpr hn)
  exact ⟨own, rfl, Ne.symm hne, hl, hr, hlast⟩

theorem attended_woke (hat : At s (.wakeResolve (.drain d) id)) :
    Attended (s.resolve id wakeValue) d := by
  rcases hat with hn | ⟨own, rfl, hne, hw⟩
  · exact .inl hn
  · exact .inr ⟨own, rfl, hw.resolve hne⟩

/-- **Every step keeps the channel within its capacity**, no other operation
being in progress. -/
theorem steady_of_act (ht : Tight capacity s) (ha : Aged s) (hat : At s pc)
    (h : (next, s') ∈ act pc s) : Steady capacity next s' := by
  have hs : ∀ {s' : State}, s'.channel.capacity = s.channel.capacity →
      s'.channel.recvFront = s.channel.recvFront → s'.channel.buffer = s.channel.buffer →
      Tight capacity s' := by
    intro s' hsize hf hb
    exact ⟨hsize.trans ht.size, hf.trans ht.recvFront, hb ▸ ht.buffer⟩
  cases acts_of_act h with
  | stashIndex | stashPush | stashBump => cases hat
  | sendBump => exact .go (hs rfl rfl rfl) (.inl hat)
  | backToSend none => exact .go ht none
  | backToDrain none =>
    -- the drain's own waiter is parked
    obtain ⟨-, own, -, -, -, front, hr, -⟩ := hat
    simp [none] at hr
  | @offered _ k _ _ first =>
    cases k with
    | send mode => exact .go (hs rfl rfl rfl) trivial
    | drain d => exact .go (hs rfl rfl rfl) (at_offered hat.1 hat.2 first)
  | drainAccepted live =>
    rcases hat.2 with ⟨-, hn⟩ | ⟨own, rfl, hne, hw⟩
    · exact .go (hs rfl rfl rfl) (.inl hn)
    · exact .go (hs rfl rfl rfl) (.inr ⟨own, rfl, hw.resolve hne⟩)
  | @offerDead k _ _ dead =>
    cases k with
    | send mode => exact .go (hs rfl rfl rfl) trivial
    | drain d =>
      obtain ⟨hro, ⟨hl, -⟩ | ⟨own, rfl, hne, hw⟩⟩ := hat
      · exact absurd hl dead
      · exact .go (hs rfl rfl rfl) ⟨hro, own, rfl, hw.resolve hne⟩
  | bankedDrain none =>
    exact .go (hs rfl rfl rfl) (hat.imp_right fun hse => hse.congr rfl rfl none.symm)
  | @waking _ k _ first =>
    cases k with
    | drain d => exact .go (hs rfl rfl rfl) (at_waking hat first)
    | received p | sent p => exact .go (hs rfl rfl rfl) trivial
  | wokeDrain live => exact .go (hs rfl rfl rfl) (attended_woke hat)
  | @wakeDead k _ dead =>
    cases k with
    | drain d => exact .go (hs rfl rfl rfl) (attended_woke hat)
    | received p | sent p => exact .go (hs rfl rfl rfl) trivial
  | drains parked => exact .go ht (hat.resolve_left parked)
  | @takenPending k =>
    cases k with
    | drain d => exact .go (hs rfl rfl rfl) ⟨hat.1, hat.2.congr rfl rfl rfl⟩
    | recv | recvLast => exact .go (hs rfl rfl rfl) trivial
  | takenDrain => exact .go (hs rfl rfl rfl) ⟨hat.1, hat.2.congr rfl rfl rfl⟩
  | recvAlloc =>
    refine .go (hs rfl rfl rfl) ⟨Senders.live_alloc_self, fun hmem => ?_, fun hmem => ?_⟩
    · exact Int.lt_irrefl _ (ha.1 _ hmem)
    · exact Int.lt_irrefl _ (ha.2 _ hmem)
  | registerPush =>
    refine .go (hs rfl rfl rfl) (.inr ⟨_, rfl, hat.live, hat.notSend, ?_⟩)
    exact ⟨s.channel.recvWaiters, rfl, hat.notRecv⟩
  | placed place room => cases place <;> exact .go (ht.placed room) hat
  | noRoom place => cases place <;> exact .go ht hat
  | frontTaken front first => simp [ht.recvFront] at first
  | frontEmpty front =>
    cases front with
    | drain d => exact .go ht hat
    | recv mode | wait wait => exact .go ht trivial
  | bufferTaken buffer _ first =>
    -- an item can only come from the buffer, the stash being empty
    obtain ⟨hro, hk⟩ := ht.popped first
    cases buffer with
    | send p | register id => exact .go hk ⟨hro, hat.congr rfl rfl rfl⟩
    | recv mode | wait wait | last => exact .go hk trivial
  | bufferEmpty buffer =>
    cases buffer with
    | recv mode | wait wait => exact .go (hs rfl rfl rfl) trivial
    | send p | register id | last => exact .ret (hs rfl rfl rfl)
  | _ =>
    first
    | exact .ret (hs rfl rfl rfl)
    | exact .go (hs rfl rfl rfl) trivial
    | exact .go (hs rfl rfl rfl) hat

end Steps

/-! ## Runs -/

section Runs

variable {capacity : Nat} {s s' : State} {pc : Pc} {next : Next Pc Answer}

theorem Busy.act (h : Busy capacity s pc) (hout : (next, s') ∈ act pc s) :
    next.Lands (Idle capacity) (Busy capacity) s' := by
  have hs := steady_of_act h.tight h.aged h.at_ hout
  obtain ⟨ha, hh⟩ := (custody_of_act hout).aged h.aged h.heldAged
  cases next with
  | go pc' =>
    have hmem : pc' ∈ [pc'] := List.mem_singleton_self pc'
    exact ⟨hs.tight, ha, hh pc' hmem, hs.at_ pc' hmem⟩
  | ret answer => exact ⟨hs.tight, ha⟩

theorem Idle.call (h : Idle capacity s) (k : Call) : Busy capacity s k.entry where
  tight := h.tight
  aged := h.aged
  heldAged := by cases k <;> simp [Call.entry, Pc.held]
  at_ := by cases k <;> trivial

theorem Idle.env (h : Idle capacity s) (e : Interference) : Idle capacity (interfere e s) where
  tight := by
    have hc : (interfere e s).channel = s.channel := interfere_channel
    refine ⟨?_, ?_, ?_⟩
    · rw [hc]
      exact h.tight.size
    · rw [hc]
      exact h.tight.recvFront
    · rw [hc]
      exact h.tight.buffer
  aged := by
    rw [Aged, interfere_channel, interfere_nextId]
    exact h.aged

def created (channel : ChannelInner) : Conf where
  shared := { channel, senders := .empty, rx := false }
  running := []
  returned := []

/-- **The channel never holds more than its capacity**, buffer and stash
together, when operations run one at a time. -/
theorem held_le_capacity (slotBytes maxChannelBytes capacity : Nat) (channel : ChannelInner)
    (hcreate : create slotBytes maxChannelBytes capacity = .ok channel)
    (moves : List (Move Call Interference)) (hserial : machine.Serial (created channel) moves)
    (c : Conf) (hrun : machine.run (created channel) moves = some c) :
    c.shared.channel.buffer.length + c.shared.channel.recvFront.length ≤ capacity := by
  obtain ⟨hpos, rfl⟩ := create_eq_ok hcreate
  have hs : Idle capacity (created (.new capacity)).shared :=
    ⟨⟨Nat.max_eq_left hpos, rfl, Nat.zero_le _⟩, nofun, nofun⟩
  have hend := Machine.run_serial (fun _ k h => h.call k) (fun _ e h => h.env e)
    (fun _ _ _ _ h hout => h.act hout) (.idle hs) hserial hrun
  have ht : Tight capacity c.shared := by
    cases hend with
    | idle h | busy h => exact h.tight
  rw [ht.recvFront]
  exact ht.buffer

/-- A receiver parks and is cancelled; one send fills the channel, the next finds
it full. -/
def sentPastCancelled : List (Move Call Interference) :=
  alone .recvFiberRegister 6 ++ [.env (.cancel (-9223372036854775807))] ++
    alone (.trySend ⟨[97], []⟩) 8 ++ alone (.trySend ⟨[98], []⟩) 5

theorem held_le_capacity_sentPastCancelled :
    ∃ c, machine.run (created (.new 1)) sentPastCancelled = some c ∧
      c.returned.drop 1 = [.sent ⟨[97], []⟩, .full ⟨[98], []⟩] ∧
      c.shared.channel.buffer.length + c.shared.channel.recvFront.length ≤ 1 := by
  refine ⟨_, rfl, rfl, ?_⟩
  exact held_le_capacity 40 (64 * 2 ^ 20) 1 (.new 1) (by decide) sentPastCancelled
    (Machine.serial_of_check rfl) _ rfl

end Runs

end OxPhp.Shared.Channel
