import OxPhp.Lib.Ledger
import OxPhp.Shared.Channel.Outcomes
import OxPhp.Shared.RefGraph

/-!
# The references in transit

A send registers its references before the deposit and a receive withdraws them
after the pop, each in a step of its own.  Between the two they are in the hands of
the operation: the index holds what the buffer and the stash hold and what is in
hands, and nothing else.
-/

namespace OxPhp.Shared.Channel

open Interleave

/-- The references an operation has registered for an item that is not in place
yet, or has still to withdraw for one it has popped. -/
def Pc.registered : Pc → Multiset SharedRef
  | sendDeposit _ p => p.keepalive
  | sendRollback _ p => p.keepalive
  | pollLoadClosed _ p => p.keepalive
  | pollDeposit _ p => p.keepalive
  | pollRollback p _ => p.keepalive
  | stashPush _ p => p.keepalive
  | takenPending _ p => p.keepalive
  | takenIndex _ p => p.keepalive
  | _ => 0

section Steps

variable {s s' : State} {pc : Pc} {next : Next Pc Answer} {rest : Multiset SharedRef}

theorem coe_heldRefs (c : ChannelInner) : (c.heldRefs : Multiset SharedRef) =
    ↑(c.recvFront.flatMap Payload.keepalive) + ↑(c.buffer.flatMap Payload.keepalive) := by
  rw [ChannelInner.heldRefs, ChannelInner.held, List.flatMap_append, Multiset.coe_add]

theorem Places.registered {p : Payload} {full : Pc} (h : Places pc p full) :
    pc.registered = p.keepalive := by
  cases h <;> rfl

theorem Fronts.registered {k : Taker} {otherwise : Pc} (h : Fronts pc k otherwise) :
    pc.registered = 0 := by
  cases h <;> rfl

theorem Buffers.registered {k : Taker} {keepRx : Bool} (h : Buffers pc k next keepRx) :
    pc.registered = 0 := by
  cases h <;> rfl

theorem inFlight_of_act (h : (next, s') ∈ act pc s)
    (hindex : ↑s.channel.inFlight = ↑s.channel.heldRefs + (pc.registered + rest)) :
    ↑s'.channel.inFlight =
      ↑s'.channel.heldRefs + (next.holds Pc.registered (fun _ => 0) + rest) := by
  have hw : ∀ views : List SharedRef, pc.registered = views →
      (↑(s.channel.inFlight.diff views) : Multiset SharedRef) =
        ↑s.channel.heldRefs + (0 + rest) := by
    intro views hv
    rw [← Multiset.coe_sub, hindex, hv, zero_add, add_left_comm, add_tsub_cancel_left]
  rw [coe_heldRefs] at hindex hw ⊢
  cases acts_of_act h with
  | sendIndex | pollIndex | stashIndex =>
    refine (Multiset.coe_add _ _).symm.trans ?_
    rw [hindex]
    simp only [Pc.registered, Next.holds, State.set, ChannelInner.indexAdd]
    abel
  | tryFull | onceFull | polls | refusedClosed | refusedLate | takenRecv | takenLast | takenDrain =>
    exact hw _ rfl
  | placed place room =>
    refine hindex.trans ?_
    rw [place.registered]
    simp only [Next.holds, Pc.registered, State.set, List.flatMap_append, List.flatMap_singleton,
      ← Multiset.coe_add]
    abel
  | stashPush =>
    refine hindex.trans ?_
    simp only [Next.holds, Pc.registered, State.set, ChannelInner.pushFront, List.flatMap_append,
      List.flatMap_singleton, ← Multiset.coe_add]
    abel
  | frontTaken front first =>
    refine hindex.trans ?_
    rw [front.registered, first]
    simp only [Next.holds, Pc.registered, State.set, List.flatMap_cons, ← Multiset.coe_add]
    abel
  | bufferTaken buffer unlocked first =>
    refine hindex.trans ?_
    rw [buffer.registered, first]
    simp only [Next.holds, Pc.registered, State.set, List.flatMap_cons, ← Multiset.coe_add]
    abel
  | noRoom place => cases place <;> exact hindex
  | frontEmpty front => cases front <;> exact hindex
  | bufferEmpty buffer => cases buffer <;> exact hindex
  | _ => exact hindex

end Steps

/-! ## Runs -/

/-- The index holds what the channel holds and what is in hands. -/
def Registered (c : Conf) : Prop :=
  ↑c.shared.channel.inFlight = ↑c.shared.channel.heldRefs + c.inHands Pc.registered

theorem Registered.step {c c' : Conf} (h : Registered c)
    (hf : machine.Fires (fun _ _ => True) c c') : Registered c' := by
  unfold Registered at h ⊢
  cases hf with
  | call k =>
    have he : (machine.entry k).registered = 0 := by cases k <;> rfl
    rw [Config.inHands_called he]
    exact h
  | env e => cases e <;> exact h
  | @act before after pc next shared hrunning _ hout =>
    rw [Config.inHands_eq hrunning] at h
    rw [Config.inHands_next]
    exact inFlight_of_act hout h

theorem distinctIds_subset (seen : List SharedId) (refs : List SharedRef) :
    distinctIds seen refs ⊆ refs := by
  induction refs generalizing seen with
  | nil => exact List.Subset.refl _
  | cons r rest ih =>
    unfold distinctIds
    split
    · exact List.subset_cons_of_subset r (ih seen)
    · exact List.cons_subset_cons r (ih _)

/-- **The index misses no reference of a buffered item, and at rest has no other.** -/
theorem inFlight_covers_items (capacity : Nat) (moves : List (Move Call Interference)) (c : Conf)
    (hrun : machine.run (start capacity) moves = some c) :
    c.shared.channel.heldRefs.Subperm c.shared.channel.inFlight ∧ (∀ r ∈ c.shared.channel.heldRefs,
        ∃ r' ∈ (Inner.channel c.shared.channel).children, r'.id = r.id) ∧
      (c.running = [] → c.shared.channel.inFlight.Perm c.shared.channel.heldRefs ∧
        ∀ r ∈ (Inner.channel c.shared.channel).children, r ∈ c.shared.channel.heldRefs) := by
  have hs : Registered (start capacity) := rfl
  have hindex : Registered c :=
    Machine.run_invariant (fun _ _ => Registered.step) hs (Machine.along_true moves _) hrun
  have hc : c.shared.channel.heldRefs.Subperm c.shared.channel.inFlight :=
    Multiset.coe_le.mp (hindex ▸ Multiset.le_add_right _ _)
  refine ⟨hc, fun r hr => mem_distinctIds (hc.subset hr) List.not_mem_nil, fun hq => ?_⟩
  have he : c.shared.channel.inFlight.Perm c.shared.channel.heldRefs := by
    rw [Registered, Config.inHands, hq] at hindex
    exact Multiset.coe_eq_coe.mp (hindex.trans (add_zero _))
  exact ⟨he, fun r hr => he.subset (distinctIds_subset [] _ hr)⟩

/-- A send deposits an item with two references to one entry. -/
def sendsTwice : List (Move Call Interference) :=
  alone (.trySend ⟨[97], [⟨4, .map⟩, ⟨4, .map⟩]⟩) 6

theorem inFlight_covers_items_twice : ∃ c, machine.run (start 1) sendsTwice = some c ∧
      c.shared.channel.inFlight = [⟨4, .map⟩, ⟨4, .map⟩] ∧
      c.shared.channel.inFlight.Perm c.shared.channel.heldRefs :=
  ⟨_, rfl, rfl, ((inFlight_covers_items 1 sendsTwice _ rfl).2.2 rfl).1⟩

end OxPhp.Shared.Channel
