import OxPhp.Shared.Channel.Custody

/-!
# Close and the parked fibers

Close sets the flag and sweeps both waiter lists once.  A receiver's registration
looks at the flag before it takes the lock of its list, so that its waiter can be
parked on a list nobody visits again; what is left is the drain the registration
ends with.
-/

namespace OxPhp.Shared.Channel

open OxPhp.Async Interleave

/-- An unresolved promise on neither waiter list. -/
def Loose (s : State) (id : PromiseId) : Prop :=
  s.senders.Unresolved id ∧ id ∉ s.channel.recvWaiters ∧ id ∉ s.channel.sendWaiters.ids

/-- An unresolved receiver parked on a closed channel. -/
def OwedRecv (s : State) (id : PromiseId) : Prop :=
  s.channel.closed = true ∧ id ∈ s.channel.recvWaiters ∧ s.senders.Unresolved id

def OwedSend (s : State) (id : PromiseId) : Prop :=
  s.channel.closed = true ∧ id ∈ s.channel.sendWaiters.ids

/-- A receiver's registration ends its drain for lack of items, after close has
swept, with its own waiter parked and unresolved. -/
def Strands (c : Conf) (pc : Pc) : Prop :=
  ∃ id, pc = .drainBuffer (.register id) ∧ c.shared.channel.buffer = [] ∧ OwedRecv c.shared id ∧
    .closeSweepRecv ∉ c.running

/-- Parked promises were allocated before. -/
def Aged (s : State) : Prop :=
  (∀ id ∈ s.channel.recvWaiters, id < s.senders.nextId) ∧
    ∀ id ∈ s.channel.sendWaiters.ids, id < s.senders.nextId

/-- The invariant: whoever has to see to a promise is in progress. -/
structure Swept (c : Conf) : Prop where
  aged : Aged c.shared
  heldAged : ∀ pc ∈ c.running, ∀ id ∈ pc.held, id < c.shared.senders.nextId
  loose : Covered Loose (fun pc id => id ∈ pc.held) c
  recv : Covered OwedRecv
    (fun pc id => pc.drainer = some (.register id) ∨ pc.sweepsRecv = true) c
  send : Covered OwedSend (fun pc _ => pc.sweepsSend = true) c

/-! ## Steps -/

section Steps

variable {s s' : State} {pc : Pc} {next : Next Pc Answer} {id : PromiseId}

theorem Handles.made_fresh (h : Handles s pc s') (hid : id ∈ s.made pc) :
    id = s.senders.nextId ∧ s'.senders.nextId = s.senders.nextId + 1 := by
  cases h with
  | alloc senders made =>
    rw [made, Multiset.mem_singleton] at hid
    exact ⟨hid, senders ▸ rfl⟩
  | same senders made | resolve held senders made =>
    rw [made] at hid
    cases Multiset.notMem_zero _ hid

theorem Handles.nextId_le (h : Handles s pc s') : s.senders.nextId ≤ s'.senders.nextId := by
  cases h with
  | same senders made => rw [senders]
  | resolve held senders made => rw [senders, Senders.resolve_nextId]
  | alloc senders made =>
    rw [senders]
    exact Int.le_of_lt (Int.lt_succ _)

theorem Custody.aged (h : Custody s pc next s') (ha : Aged s)
    (hh : ∀ id ∈ pc.held, id < s.senders.nextId) :
    Aged s' ∧ ∀ pc' ∈ next.pcs, ∀ id ∈ pc'.held, id < s'.senders.nextId := by
  have hb : ∀ id ∈ s.parked + pc.hands + s.made pc, id < s'.senders.nextId := by
    intro id hid
    rcases Multiset.mem_add.mp hid with hold | hm
    · refine Int.lt_of_lt_of_le ?_ h.handles.nextId_le
      rcases Multiset.mem_add.mp hold with hp | hha
      · exact (mem_parked.mp hp).elim (ha.1 id) (ha.2 id)
      · exact hh id hha
    · obtain ⟨rfl, hn⟩ := h.handles.made_fresh hm
      exact hn ▸ Int.lt_succ _
  have haf : ∀ id ∈ s'.parked + next.holds Pc.hands (fun _ => 0), id < s'.senders.nextId :=
    fun id hid => hb id (Multiset.mem_of_le h.hands hid)
  refine ⟨⟨fun id hid => ?_, fun id hid => ?_⟩, fun pc' hpc' id hid => ?_⟩
  · exact haf id (Multiset.mem_add.mpr (.inl (mem_parked.mpr (.inl hid))))
  · exact haf id (Multiset.mem_add.mpr (.inl (mem_parked.mpr (.inr hid))))
  · exact haf id (Multiset.mem_add.mpr (.inr (mem_holds_hands.mpr ⟨pc', hpc', hid⟩)))

theorem Custody.loose (h : Custody s pc next s') (hid : Loose s' id) :
    (∃ pc' ∈ next.pcs, id ∈ pc'.held) ∨ (Loose s id ∧ id ∉ pc.held) := by
  obtain ⟨hu, hp⟩ := hid
  by_cases hb : id ∈ s.parked + pc.hands + s.made pc
  · refine .inl (mem_holds_hands.mp ?_)
    refine (Multiset.mem_add.mp (h.kept id hb hu)).resolve_left fun hin => ?_
    exact (mem_parked.mp hin).elim hp.1 hp.2
  · simp only [Multiset.mem_add, mem_parked, not_or] at hb
    obtain ⟨⟨hold, hh⟩, hm⟩ := hb
    exact .inr ⟨⟨(h.handles.unresolved hu).resolve_right hm, hold⟩, hh⟩

theorem owedSend_of_act (h : (next, s') ∈ act pc s) (hid : OwedSend s' id) :
    (∃ pc' ∈ next.pcs, pc'.sweepsSend = true) ∨ (OwedSend s id ∧ ¬pc.sweepsSend = true) := by
  cases acts_of_act h with
  | waking first =>
    exact .inr ⟨⟨hid.1, first ▸ List.mem_cons_of_mem _ hid.2⟩, Bool.false_ne_true⟩
  | bankedReceived none | bankedSent none | bankedDrain none | closeSweepSend =>
    exact absurd hid.2 List.not_mem_nil
  | parked opened credits => exact absurd (opened.symm.trans hid.1) Bool.false_ne_true
  | closeSwap opened | closeSweepRecv | cancelDone | cancelOne =>
    exact .inl ⟨_, List.mem_singleton_self _, rfl⟩
  | placed place | noRoom place => cases place <;> exact .inr ⟨hid, Bool.false_ne_true⟩
  | frontTaken front | frontEmpty front => cases front <;> exact .inr ⟨hid, Bool.false_ne_true⟩
  | bufferTaken buffer | bufferEmpty buffer =>
    cases buffer <;> exact .inr ⟨hid, Bool.false_ne_true⟩
  | _ => exact .inr ⟨hid, Bool.false_ne_true⟩

/-- A receiver parked on a closed channel waits for the sweep, or for its own
registration to end with the items gone. -/
theorem owedRecv_of_act (h : (next, s') ∈ act pc s) (ha : Aged s) (hid : OwedRecv s' id) :
    (∃ pc' ∈ next.pcs, pc'.drainer = some (.register id) ∨ pc'.sweepsRecv = true) ∨
      (OwedRecv s id ∧ (pc.drainer = some (.register id) ∨ pc.sweepsRecv = true →
        pc = .drainBuffer (.register id) ∧ s.channel.buffer = [])) := by
  obtain ⟨hc', hp', hu'⟩ := hid
  rcases closed_before_act h hc' with hc | rfl
  swap
  · exact .inl ⟨_, List.mem_singleton_self _, .inr rfl⟩
  rcases recvParked_before_act h hp' with hp | rfl
  swap
  · exact .inl ⟨_, List.mem_singleton_self _, .inl rfl⟩
  have hh := (custody_of_act h).handles
  have hu : s.senders.Unresolved id := by
    refine (hh.unresolved hu').resolve_right fun hm => ?_
    exact Int.ne_of_lt (ha.1 id hp) (hh.made_fresh hm).1
  by_cases hdr : pc.drainer = some (.register id)
  · rcases drainer_of_act h hdr with ⟨pc', hpc', hd⟩ | hn | hlast
    · exact .inl ⟨pc', hpc', .inl hd⟩
    · rw [hn] at hp
      cases hp
    · exact .inr ⟨⟨hc, hp, hu⟩, fun _ => hlast⟩
  · refine .inr ⟨⟨hc, hp, hu⟩, fun hho => ?_⟩
    have hs := hho.resolve_left hdr
    cases pc with
    | closeSweepRecv =>
      cases List.mem_singleton.mp h
      cases hp'
    | _ => cases hs

end Steps

/-! ## Interference -/

section Interfere

variable {s : State} {e : Interference} {id : PromiseId}

theorem interfere_channel : (interfere e s).channel = s.channel := by
  cases e <;> rfl

theorem interfere_nextId : (interfere e s).senders.nextId = s.senders.nextId := by
  cases e with
  | cancel id => exact Senders.resolve_nextId
  | dropReceiver id => rfl

theorem unresolved_of_interfere (h : (interfere e s).senders.Unresolved id) :
    s.senders.Unresolved id := by
  cases e with
  | cancel id' => exact (Senders.unresolved_resolve.mp h).1
  | dropReceiver id' => exact Senders.unresolved_dropReceiver h

end Interfere

/-! ## Runs -/

section Runs

variable {c c' : Conf}

theorem swept_start (capacity : Nat) : Swept (start capacity) where
  aged := ⟨nofun, nofun⟩
  heldAged := nofun
  loose := fun _ h => absurd h.1 nofun
  recv := fun _ h => absurd h.2.1 nofun
  send := fun _ h => absurd h.2 nofun

theorem Swept.agedStep (h : Swept c) (hf : machine.Fires (fun c pc => ¬Strands c pc) c c') :
    Aged c'.shared ∧ ∀ pc ∈ c'.running, ∀ id ∈ pc.held, id < c'.shared.senders.nextId := by
  cases hf with
  | call k =>
    refine ⟨h.aged, fun pc hpc id hid => ?_⟩
    rcases List.mem_append.mp hpc with hpc | hpc
    · exact h.heldAged pc hpc id hid
    · cases List.mem_singleton.mp hpc
      cases k <;> cases hid
  | env e =>
    simp only [Aged, machine, interfere_channel, interfere_nextId]
    exact ⟨h.aged, h.heldAged⟩
  | @act before after pc next shared hrunning hmet hout =>
    have hpc : ∀ x ∈ before ++ pc :: after, ∀ id ∈ x.held, id < c.shared.senders.nextId :=
      hrunning ▸ h.heldAged
    have hc := custody_of_act hout
    obtain ⟨ha, hn⟩ := hc.aged h.aged
      (hpc pc (List.mem_append_right _ List.mem_cons_self))
    have hk : ∀ x ∈ before ++ pc :: after, ∀ id ∈ x.held, id < shared.senders.nextId :=
      fun x hx id hid => Int.lt_of_lt_of_le (hpc x hx id hid) hc.handles.nextId_le
    exact ⟨ha, forall_running hk hn⟩

/-- **One move keeps the invariant**, unless a registration strands its waiter. -/
theorem Swept.step (h : Swept c) (hf : machine.Fires (fun c pc => ¬Strands c pc) c c') :
    Swept c' where
  aged := (h.agedStep hf).1
  heldAged := (h.agedStep hf).2
  loose := by
    refine h.loose.step hf (fun e id hid => ?_) fun pc _ next s' _ hout id hid => ?_
    · obtain ⟨hu, hp⟩ := hid
      simp only [machine, interfere_channel] at hp
      exact ⟨unresolved_of_interfere hu, hp⟩
    · exact ((custody_of_act hout).loose hid).imp_right fun ⟨hold, hfr⟩ =>
        ⟨hold, fun hhe => absurd hhe hfr⟩
  recv := by
    refine h.recv.step hf (fun e id hid => ?_) fun pc _ next s' hmet hout id hid => ?_
    · obtain ⟨hc, hp, hu⟩ := hid
      simp only [machine, interfere_channel] at hc hp
      exact ⟨hc, hp, unresolved_of_interfere hu⟩
    · refine (owedRecv_of_act hout h.aged hid).imp_right fun ⟨ho, hlast⟩ =>
        ⟨ho, fun hh => ?_⟩
      obtain ⟨rfl, he⟩ := hlast hh
      -- a registration that leaves its waiter behind leaves it to a sweep still to come
      have hs : .closeSweepRecv ∈ c.running :=
        not_not.mp fun hno => hmet ⟨id, rfl, he, ho, hno⟩
      exact ⟨_, hs, nofun, .inr rfl⟩
  send := by
    refine h.send.step hf (fun e id hid => ?_) fun pc _ next s' _ hout id hid => ?_
    · obtain ⟨hc, hp⟩ := hid
      simp only [machine, interfere_channel] at hc hp
      exact ⟨hc, hp⟩
    · exact (owedSend_of_act hout hid).imp_right fun ⟨hold, hfr⟩ =>
        ⟨hold, fun hsw => absurd hsw hfr⟩

def Closing (c : Conf) : Prop := c.shared.channel.closed = true ∨ .closeSwap ∈ c.running

theorem Closing.step (h : Closing c) (hf : machine.Fires (fun _ _ => True) c c') : Closing c' := by
  cases hf with
  | call k => exact h.imp_right (List.mem_append_left _)
  | env e =>
    refine h.imp_left fun hc => ?_
    simpa only [machine, interfere_channel] using hc
  | @act before after pc next shared hrunning hmet hout =>
    rcases h with hc | hs
    · exact .inl (closed_of_act hout hc)
    · rw [hrunning, List.mem_append, List.mem_cons] at hs
      rcases hs with hmem | rfl | hmem
      · exact .inr (List.mem_append_left _ (List.mem_append_left _ hmem))
      · -- the swap leaves the flag set whatever it was
        dsimp only [machine, act] at hout
        split at hout
        · next hc =>
          cases List.mem_singleton.mp hout
          exact .inl hc
        · cases List.mem_singleton.mp hout
          exact .inl rfl
      · exact .inr (List.mem_append_right _ hmem)

/-- **After close, no waiter is left unresolved**: when every operation has
ended, each promise was given an item or a free slot, or told that the channel
is closed. -/
theorem close_resolves_waiters (capacity : Nat) (moves : List (Move Call Interference)) (c : Conf)
    (hrun : machine.run (start capacity) moves = some c) (hclose : .call .close ∈ moves)
    (hquiet : c.running = [])
    (hmet : machine.Along (fun c pc => ¬Strands c pc) (start capacity) moves) :
    (∀ id ∈ c.shared.channel.recvWaiters, ¬c.shared.senders.Unresolved id) ∧
      c.shared.senders.waiting = [] := by
  have hs : Swept c :=
    Machine.run_invariant (fun _ _ => Swept.step) (swept_start capacity) hmet hrun
  have hc : c.shared.channel.closed = true := by
    have hcl : Closing c := by
      refine Machine.run_established (fun c c' hst => ?_) (fun _ _ => Closing.step) hclose hrun
      cases hst
      exact .inr (List.mem_append_right _ (List.mem_singleton_self _))
    rcases hcl with hc | hsw
    · exact hc
    · rw [hquiet] at hsw
      cases hsw
  have hr : ∀ id ∈ c.shared.channel.recvWaiters, ¬c.shared.senders.Unresolved id :=
    fun id hp hu => hs.recv.quiet hquiet id ⟨hc, hp, hu⟩
  refine ⟨hr, Senders.waiting_eq_nil fun id hu => ?_⟩
  refine hs.loose.quiet hquiet id ⟨hu, fun hp => hr id hp hu, ?_⟩
  exact fun hp => hs.send.quiet hquiet id ⟨hc, hp⟩

/-- A receiver parks on a closed channel that still holds an item. -/
def lateReceiver : List (Move Call Interference) :=
  alone (.trySend ⟨[97], []⟩) 6 ++ alone .close 5 ++ alone .recvFiberRegister 13

def findsItem (c : Conf) : Pc → Bool
  | .drainBuffer _ => !c.shared.channel.buffer.isEmpty
  | _ => true

theorem not_strands_of_findsItem (c : Conf) (pc : Pc) (h : findsItem c pc = true) :
    ¬Strands c pc := by
  rintro ⟨id, rfl, he, -⟩
  rw [findsItem, he] at h
  cases h

theorem close_resolves_waiters_lateReceiver :
    ∃ c, machine.run (start 1) lateReceiver = some c ∧ c.running = [] ∧
      c.shared.senders.waiting = [] := by
  refine ⟨_, rfl, rfl, (close_resolves_waiters 1 lateReceiver _ rfl ?_ rfl ?_).2⟩
  · simp [lateReceiver, alone]
  · exact Machine.along_of_check not_strands_of_findsItem rfl

/-- Close sweeps between a registration's look at the flag and its push. -/
def sweptBeforePush : List (Move Call Interference) :=
  [Move.call Call.recvFiberRegister, .act 0 0, .act 0 0, .call .close] ++
    List.replicate 5 (Move.act 1 0) ++ List.replicate 4 (Move.act 0 0)

/-- **The waiter of such a registration is stranded**: every operation has ended
and it is parked, unresolved, on a closed channel. -/
theorem sweptBeforePush_strands :
    ∃ c, machine.run (start 1) sweptBeforePush = some c ∧ .call .close ∈ sweptBeforePush ∧
      c.running = [] ∧ c.returned = [.closed true, .recvRegistered (-9223372036854775807)] ∧
      ∃ id ∈ c.shared.channel.recvWaiters, c.shared.senders.Unresolved id := by
  refine ⟨_, rfl, by simp [sweptBeforePush], rfl, rfl, -9223372036854775807, ?_, ?_⟩
  · decide
  · decide

end Runs

end OxPhp.Shared.Channel
