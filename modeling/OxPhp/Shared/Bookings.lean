import Mathlib.Algebra.BigOperators.Ring.Finset
import Mathlib.Algebra.Order.BigOperators.Group.List
import Mathlib.Algebra.Order.Ring.Int
import OxPhp.Shared.Accounting

/-!
# Bytes booked and not yet booked

What an entry records and what its operations owe add up to its size, as long as
no booking takes off more than is there.  A booking that does stops at zero, and
the difference is never made good.
-/

namespace OxPhp.Shared.Accounting

open ByteStr Interleave

/-! ## What an operation owes -/

namespace Inside

/-- Members gone from the map that the stripes still count. -/
def uncounted : Inside → Int
  | bookMem _ after => if after.uncount then 1 else 0
  | bookTotal _ after => if after.uncount then 1 else 0
  | finish after => if after.uncount then 1 else 0
  | _ => 0

/-- Bytes the entry does not record yet. -/
def unbooked : Inside → Int
  | clear _ _ delta => delta
  | bookMem delta _ => delta
  | _ => 0

/-- Bytes the entry records and the total does not yet count. -/
def halfBooked : Inside → Int
  | bookTotal delta _ => delta
  | _ => 0

variable (delta : Int) (after : After)

@[simp] theorem uncounted_track :
    (trackMapDelta delta after).uncounted = if after.uncount then 1 else 0 := by
  unfold trackMapDelta
  split <;> rfl

@[simp] theorem unbooked_track : (trackMapDelta delta after).unbooked = delta := by
  unfold trackMapDelta
  split
  · next h => exact h.symm
  · rfl

@[simp] theorem halfBooked_track : (trackMapDelta delta after).halfBooked = 0 := by
  unfold trackMapDelta
  split <;> rfl

end Inside

/-- By how much the stripes are ahead of the members. -/
def Content.gap : Content → Int
  | map m counted => counted - m.count
  | other _ => 0

/-- The size once the stripes have caught up. -/
def Content.size : Content → Nat
  | map m _ => m.memBytes
  | other bytes => bytes

theorem Content.memBytes_of_gap {content : Content} (h : content.gap = 0) :
    content.memBytes = content.size := by
  cases content with
  | map m counted =>
    have hc : counted.toNat = m.count := by
      dsimp only [gap] at h
      omega
    rw [memBytes, size, MapInner.memBytes, hc]
  | other bytes => rfl

/-- What the entry's operations have yet to book in it. -/
def Entry.owed (e : Entry) : Int := e.content.size + entryFixedOverhead - e.memBytes

/-- A change to the map alone: the operation now owes what it changed. -/
structure Changes (e : Entry) (turn : Turn) : Prop where
  id : turn.2.id = e.id
  users : turn.2.users = e.users
  memBytes : turn.2.memBytes = e.memBytes
  gap : turn.2.content.gap = e.content.gap + turn.1.holds Inside.uncounted fun _ => 0
  size : (turn.2.content.size : Int) = e.content.size + turn.1.holds Inside.unbooked fun _ => 0
  half : (turn.1.holds Inside.halfBooked fun _ => 0) = 0

theorem Changes.ret (e : Entry) (answer : Answer) : Changes e (.ret answer, e) :=
  ⟨rfl, rfl, rfl, (add_zero _).symm, (add_zero _).symm, rfl⟩

variable {S : Setting} {e : Entry} {m : MapInner} {counted delta : Int} {turn : Turn}
  {total total' : Nat}

/-- A change to one member owes its cost. -/
theorem Changes.track {e' : Entry} {m' : MapInner} {counted' : Int} {after : After}
    (hmap : e.content = .map m counted) (hmap' : e'.content = .map m' counted')
    (hid : e'.id = e.id) (hu : e'.users = e.users) (hmem : e'.memBytes = e.memBytes)
    (hgap : counted' - m'.count = counted - m.count + if after.uncount then 1 else 0)
    (hc : (m'.costs : Int) = m.costs + delta) :
    Changes e (.go (trackMapDelta delta after), e') := by
  refine ⟨hid, hu, hmem, ?_, ?_, ?_⟩
  · simpa only [hmap, hmap', Content.gap, Next.holds, Inside.uncounted_track] using hgap
  · simp only [hmap, hmap', Content.size, Next.holds, Inside.unbooked_track,
      MapInner.memBytes_eq]
    omega
  · exact Inside.halfBooked_track delta after

section Update

variable {key : MapKey} {value prev : SharedValue} (hmap : e.content = .map m counted)

include hmap

theorem insertVacant_changes (hv : m.entries.lookup key = none) (rest : Rest)
    (fail : Failure → Answer) :
    ∀ turn ∈ insertVacant e m counted key value rest fail, Changes e turn := by
  obtain ⟨hc, hco⟩ : (m.insert key value).costs = _ ∧ _ := MapInner.costs_insert_new hv
  refine List.forall_mem_cons.mpr ⟨Changes.track hmap rfl rfl rfl rfl ?_ ?_, ?_⟩
  · simp only [Bool.false_eq_true, if_false]
    omega
  · omega
  · split
    · exact List.forall_mem_singleton.mpr (Changes.ret e _)
    · exact List.forall_mem_nil _

theorem replaceOccupied_changes (hp : m.entries.lookup key = some prev) (rest : Rest) :
    ∀ turn ∈ replaceOccupied S e m counted key value prev rest, Changes e turn := by
  obtain ⟨hc, hco⟩ : (m.insert key value).costs + _ = _ ∧ _ :=
    MapInner.costs_insert_old hp
  refine List.forall_mem_singleton.mpr (Changes.track hmap rfl rfl rfl rfl ?_ ?_)
  · simp only [Bool.false_eq_true, if_false]
    omega
  · -- the key is charged in both costs
    simp only [mapEntryCost, mapEntryCostParts] at hc
    omega

theorem removeOccupied_changes (hp : m.entries.lookup key = some prev) (answer : Answer) :
    ∀ turn ∈ removeOccupied e m counted key prev answer, Changes e turn := by
  obtain ⟨hc, hco⟩ := MapInner.costs_pop hp
  refine List.forall_mem_singleton.mpr (Changes.track hmap rfl rfl rfl rfl ?_ ?_)
  · simp only [if_true]
    omega
  · omega

theorem store_changes (rest : Option SharedValue → Rest) (fail : Failure → Answer) :
    ∀ turn ∈ store S e m counted key value rest fail, Changes e turn := by
  unfold store
  cases hl : m.entries.lookup key with
  | some prev => exact replaceOccupied_changes hmap hl _
  | none => exact insertVacant_changes hmap hl _ fail

theorem compareAndSet_changes (expected new : Option SharedValue) :
    ∀ turn ∈ compareAndSet S e m counted key expected new, Changes e turn := by
  have hret (answer : Answer) : ∀ turn ∈ [((.ret answer, e) : Turn)], Changes e turn :=
    List.forall_mem_singleton.mpr (Changes.ret e answer)
  unfold compareAndSet
  cases hl : m.entries.lookup key with
  | some present =>
    cases expected with
    | some x =>
      dsimp only
      split
      · cases new with
        | some v => exact replaceOccupied_changes hmap hl _
        | none => exact removeOccupied_changes hmap hl _
      · exact hret _
    | none => exact hret _
  | none =>
    cases expected with
    | some x => exact hret _
    | none =>
      cases new with
      | some v => exact insertVacant_changes hmap hl _ _
      | none => exact hret _

theorem pop_changes : ∀ turn ∈ pop e m counted key, Changes e turn := by
  unfold pop
  cases hl : m.entries.lookup key with
  | some prev => exact removeOccupied_changes hmap hl _
  | none => exact List.forall_mem_singleton.mpr (Changes.ret e _)

omit hmap in
/-- A poisoned or held shard lock only takes outcomes away. -/
theorem locking_changes {turns : List Turn} (h : ∀ turn ∈ turns, Changes e turn) :
    ∀ turn ∈ locking S e key turns, Changes e turn := by
  unfold locking
  split
  · exact List.forall_mem_nil _
  · exact h

/-- The first step of every map operation changes the map alone. -/
theorem update_changes (op : MapOp)
    (hout : (turn, total') ∈ (Inside.update op).act S e m counted total) :
    Changes e turn ∧ total' = total := by
  obtain ⟨turn', ht, heq⟩ := List.mem_map.mp hout
  cases heq
  refine ⟨?_, rfl⟩
  have hgo (p : Inside) (hu : p.uncounted = 0) (hun : p.unbooked = 0) (hh : p.halfBooked = 0) :
      Changes e (.go p, e) := by
    refine ⟨rfl, rfl, rfl, ?_, ?_, hh⟩
    · rw [Next.holds, hu, add_zero]
    · rw [Next.holds, hun, add_zero]
  cases op with
  | set key value | swap key value => exact locking_changes (store_changes hmap _ _) _ ht
  | setIfAbsent key value =>
    refine locking_changes ?_ _ ht
    cases hl : m.entries.lookup key with
    | some prev => exact List.forall_mem_singleton.mpr (Changes.ret e _)
    | none => exact insertVacant_changes hmap hl _ _
  | compareAndSet key expected new =>
    exact locking_changes (compareAndSet_changes hmap expected new) _ ht
  | setManyBatch batch | clear => exact List.mem_singleton.mp ht ▸ hgo _ rfl rfl rfl
  | pop key => exact locking_changes (pop_changes hmap) _ ht

theorem setEach_changes {inserted : Nat} {batch : List (MapKey × SharedValue)}
    (hout : (turn, total') ∈ (Inside.setEach inserted batch).act S e m counted total) :
    Changes e turn ∧ total' = total := by
  cases batch with
  | nil =>
    cases sole_outcome hout
    exact ⟨Changes.ret e _, rfl⟩
  | cons kv batch =>
    obtain ⟨turn', ht, heq⟩ := List.mem_map.mp hout
    cases heq
    refine ⟨?_, rfl⟩
    cases hn : MapInner.rejectUnstorable kv.2 with
    | error f =>
      rw [hn] at ht
      exact List.mem_singleton.mp ht ▸ Changes.ret e _
    | ok _ =>
      rw [hn] at ht
      exact locking_changes (store_changes hmap _ _) _ ht

end Update

/-! ## One step inside an entry -/

/-- What a step inside an entry keeps: the stripes, the record and the total are
off by exactly what operations owe. -/
structure Settles (e : Entry) (total : Nat) (p : Inside) (turn : Turn) (total' : Nat) : Prop where
  id : turn.2.id = e.id
  users : turn.2.users = e.users
  gap : turn.2.content.gap + p.uncounted =
    e.content.gap + turn.1.holds Inside.uncounted fun _ => 0
  owed : turn.2.owed + p.unbooked = e.owed + turn.1.holds Inside.unbooked fun _ => 0
  half : total' + (e.memBytes : Int) + (turn.1.holds Inside.halfBooked fun _ => 0) =
    total + turn.2.memBytes + p.halfBooked
  spent : total' = total ∨
    ∃ delta after, p = .bookTotal delta after ∧ (total' : Int) = total + delta

theorem Changes.settles {p : Inside} (h : Changes e turn) (total : Nat)
    (hu : p.uncounted = 0) (hun : p.unbooked = 0) (hh : p.halfBooked = 0) :
    Settles e total p turn total := by
  have hgap := h.gap
  have hsize := h.size
  have hmem := h.memBytes
  refine ⟨h.id, h.users, ?_, ?_, ?_, .inl rfl⟩
  · omega
  · unfold Entry.owed
    omega
  · rw [h.half, hh, hmem]

theorem clear_settles (hmap : e.content = .map m counted) {shard removed : Nat}
    (hout : (turn, total') ∈ (Inside.clear shard removed delta).act S e m counted total) :
    Settles e total (.clear shard removed delta) turn total' := by
  rw [Inside.act] at hout
  split at hout
  · split at hout
    · cases hout
    · cases sole_outcome hout
      have hk := m.costs_keep fun key => decide ((S.shardOf key : Nat) = shard)
      refine ⟨rfl, rfl, ?_, ?_, ?_, .inl rfl⟩
      · simp only [Entry.holding, hmap, Content.gap, Inside.uncounted, Next.holds]
        omega
      · simp only [Entry.holding, hmap, Entry.owed, Content.size, MapInner.memBytes_eq,
          Inside.unbooked, Next.holds]
        omega
      · rfl
  · cases sole_outcome hout
    refine ⟨rfl, rfl, ?_, ?_, ?_, .inl rfl⟩
    · rw [Next.holds, Inside.uncounted_track]
      rfl
    · rw [Next.holds, Inside.unbooked_track]
      rfl
    · rw [Next.holds, Inside.halfBooked_track]
      rfl

/-- Every step inside an entry settles, unless a booking takes off too much. -/
theorem act_settles {p : Inside} (hmap : e.content = .map m counted)
    (hmem : ∀ delta after, p = .bookMem delta after → 0 ≤ (e.memBytes : Int) + delta)
    (ht : ∀ delta after, p = .bookTotal delta after → 0 ≤ (total : Int) + delta)
    (hout : (turn, total') ∈ p.act S e m counted total) : Settles e total p turn total' := by
  cases p with
  | update op =>
    obtain ⟨hc, rfl⟩ := update_changes hmap op hout
    exact hc.settles total' rfl rfl rfl
  | setEach inserted batch =>
    obtain ⟨hc, rfl⟩ := setEach_changes hmap hout
    exact hc.settles total' rfl rfl rfl
  | clear shard removed delta => exact clear_settles hmap hout
  | bookMem delta after =>
    have hb := adjusted_of_nonneg (hmem delta after rfl)
    cases sole_outcome hout
    refine ⟨rfl, rfl, rfl, ?_, ?_, .inl rfl⟩
    · simp only [Entry.owed, Inside.unbooked, Next.holds]
      omega
    · simp only [Inside.halfBooked, Next.holds]
      omega
  | bookTotal delta after =>
    have hb := adjusted_of_nonneg (ht delta after rfl)
    cases sole_outcome hout
    refine ⟨rfl, rfl, rfl, rfl, ?_, .inr ⟨delta, after, rfl, hb⟩⟩
    simp only [Inside.halfBooked, Next.holds]
    omega
  | finish after =>
    -- a removal's stripe is decremented here, after its bytes are booked
    have hl (next : Next Inside Answer) (hu : next.holds Inside.uncounted (fun _ => 0) = 0)
        (hun : next.holds Inside.unbooked (fun _ => 0) = 0)
        (hh : next.holds Inside.halfBooked (fun _ => 0) = 0) (locked) :
        Settles e total (.finish after)
          (next, { e.holding m (if after.uncount then counted - 1 else counted) with
            locked := locked }) total := by
      refine ⟨rfl, rfl, ?_, ?_, ?_, .inl rfl⟩
      · simp only [Entry.holding, hmap, Content.gap, Inside.uncounted, hu]
        split <;> omega
      · simp only [Entry.owed, Entry.holding, hmap, Content.size, Inside.unbooked, hun]
      · simp only [Entry.holding, Inside.halfBooked, hh]
    cases hr : after.rest with
    | answer a | setEach inserted batch =>
      simp only [Inside.act, hr, List.mem_singleton, Prod.mk.injEq] at hout
      obtain ⟨rfl, rfl⟩ := hout
      exact hl _ rfl rfl rfl _

/-! ## What is in hands -/

/-- A state of the books: the accounts and the operations in progress. -/
abbrev State := Config Accounts Pc Answer

/-- The entry an operation is inside of. -/
def Pc.target : Pc → Option SharedId
  | .inside id _ => some id
  | _ => none

/-- The operation is not inside entry `id`. -/
def Pc.Avoids (id : SharedId) (pc : Pc) : Prop := pc.target ≠ some id

theorem Pc.avoids_of_none {pc : Pc} (h : pc.target = none) (id : SharedId) : pc.Avoids id := by
  rw [Pc.Avoids, h]
  exact Option.some_ne_none id ∘ Eq.symm

section Dues

variable {A : Type}

/-- What an operation inside entry `id` owes it, by `f`. -/
def due [Zero A] (f : Inside → A) (id : SharedId) : Pc → A
  | .inside id' p => if id' = id then f p else 0
  | _ => 0

theorem due_eq_zero [Zero A] {f : Inside → A} {id : SharedId} {pc : Pc} (h : pc.Avoids id) :
    due f id pc = 0 := by
  cases pc with
  | inside id' p =>
    rw [due, if_neg]
    exact fun heq => h (congrArg some heq)
  | _ => rfl

theorem holds_due_eq_zero [AddCommMonoid A] {f : Inside → A} {id : SharedId}
    {next : Next Pc Answer} (h : ∀ pc ∈ next.pcs, pc.Avoids id) :
    next.holds (due f id) (fun _ => 0) = 0 := by
  cases next with
  | go pc => exact due_eq_zero (h pc (List.mem_singleton.mpr rfl))
  | ret answer => rfl

end Dues

/-- Slots of the entry count that an operation holds. -/
def Pc.slots : Pc → Nat
  | .rollbackEntry _ => 1
  | .reserveBytes _ => 1
  | .rollbackBytes _ _ => 1
  | .allocId _ => 1
  | .publish _ _ => 1
  | .dropCount _ _ => 1
  | _ => 0

/-- Bytes of the total that an operation holds. -/
def Pc.reserved : Pc → Nat
  | .rollbackBytes mem _ => mem
  | .allocId new => new.mem
  | .publish new _ => new.mem
  | .dropCount _ mem => mem
  | .dropBytes _ mem => mem
  | _ => 0

/-- The id of an entry about to be published. -/
def Pc.claims : Pc → Multiset SharedId
  | .publish _ id => {id}
  | _ => 0

/-- What the total counts for an entry. -/
def share (c : State) (e : Entry) : Int := e.memBytes - c.inHands (due Inside.halfBooked e.id)

/-- Every id given out and not dropped. -/
def claims (c : State) : Multiset SharedId := ↑(c.shared.live.map Entry.id) + c.inHands Pc.claims

/-- A booking that takes off more than is booked: from the entry, or from what
the total counts for it. -/
def overdraws (c : State) : Pc → Bool
  | .inside id (.bookMem delta _) =>
    c.shared.live.any fun e => e.id == id && decide ((e.memBytes : Int) + delta < 0)
  | .inside id (.bookTotal delta _) =>
    c.shared.live.any fun e => e.id == id && decide (share c e + delta < 0)
  | _ => false

/-- A `fetch_sub` of more than there is. -/
def wraps (s : Accounts) : Pc → Bool
  | .rollbackEntry _ => decide (s.totalEntries < 1)
  | .dropCount _ _ => decide (s.totalEntries < 1)
  | .rollbackBytes mem _ => decide (s.totalBytes < mem)
  | .dropBytes _ mem => decide (s.totalBytes < mem)
  | _ => false

/-! ## The books -/

/-- The stripes, the record and the users of an entry are off by exactly what operations owe it. -/
structure InOrder (c : State) (e : Entry) : Prop where
  users : e.users = c.inHands (due (fun _ => 1) e.id)
  gap : e.content.gap = c.inHands (due Inside.uncounted e.id)
  owed : e.owed = c.inHands (due Inside.unbooked e.id)
  share : 0 ≤ share c e

/-- An operation inside an entry keeps it alive. -/
def Holds (s : Accounts) (pc : Pc) : Prop := ∀ id, pc.target = some id → ∃ e ∈ s.live, e.id = id

/-- The invariant: every entry is in order, and the totals count the live entries and what
operations hold. -/
structure Booked (c : State) : Prop where
  distinct : (claims c).Nodup
  known : ∀ id ∈ claims c, id < c.shared.nextId
  inside : ∀ pc ∈ c.running, Holds c.shared pc
  inOrder : ∀ e ∈ c.shared.live, InOrder c e
  entries : c.shared.totalEntries = c.shared.live.length + c.inHands Pc.slots
  bytes : (c.shared.totalBytes : Int) =
    (c.shared.live.map (share c)).sum + (c.inHands Pc.reserved : Nat)

namespace Booked

variable {c : State} {pc : Pc}

theorem nodup (h : Booked c) : (c.shared.live.map Entry.id).Nodup :=
  Multiset.coe_nodup.mp (Multiset.nodup_of_le (Multiset.le_add_right _ _) h.distinct)

/-- The total covers every share. -/
theorem share_le (h : Booked c) (he : e ∈ c.shared.live) :
    share c e + (c.inHands Pc.reserved : Nat) ≤ c.shared.totalBytes := by
  have hle : share c e ≤ (c.shared.live.map (share c)).sum := by
    refine List.single_le_sum ?_ _ (List.mem_map_of_mem he)
    intro x hx
    obtain ⟨e', he', rfl⟩ := List.mem_map.mp hx
    exact (h.inOrder e' he').share
  rw [h.bytes]
  omega

/-- **No subtraction wraps.** -/
theorem not_wraps (h : Booked c) (hpc : pc ∈ c.running) : wraps c.shared pc = false := by
  have hs : pc.slots ≤ c.shared.totalEntries := by
    have hle := c.le_inHands Pc.slots hpc
    rw [h.entries]
    omega
  have hr : pc.reserved ≤ c.shared.totalBytes := by
    have hle := c.le_inHands Pc.reserved hpc
    have hsh : 0 ≤ (c.shared.live.map (share c)).sum := by
      refine List.sum_nonneg fun x hx => ?_
      obtain ⟨e, he, rfl⟩ := List.mem_map.mp hx
      exact (h.inOrder e he).share
    have hb := h.bytes
    omega
  cases pc with
  | rollbackEntry f | dropCount id mem => exact decide_eq_false (Nat.not_lt.mpr hs)
  | rollbackBytes mem f | dropBytes id mem => exact decide_eq_false (Nat.not_lt.mpr hr)
  | _ => rfl

end Booked

/-! ## What a step does to the books -/

/-- A step on the counters alone. -/
structure Tallies (c : State) (pc : Pc) (next : Next Pc Answer) (s : Accounts) : Prop where
  avoids : ∀ id, pc.Avoids id
  nextAvoids : ∀ pc' ∈ next.pcs, ∀ id, pc'.Avoids id
  live : s.live = c.shared.live
  entries : s.totalEntries + pc.slots = c.shared.totalEntries + next.holds Pc.slots fun _ => 0
  bytes : s.totalBytes + pc.reserved = c.shared.totalBytes + next.holds Pc.reserved fun _ => 0
  ids : (s.nextId = c.shared.nextId ∧ (next.holds Pc.claims fun _ => 0) = pc.claims) ∨
    (s.nextId = c.shared.nextId + 1 ∧ pc.claims = 0 ∧
      (next.holds Pc.claims fun _ => 0) = {c.shared.nextId})

/-- A step on one entry, which stands between `kept` and `kept'`. -/
structure Works (c : State) (pc : Pc) (next : Next Pc Answer) (s : Accounts) (e e' : Entry)
    (kept kept' : List Entry) : Prop where
  split : Keyed.Split Entry.id c.shared.live e.id e kept kept'
  state : s = { c.shared with live := kept ++ e' :: kept', totalBytes := s.totalBytes }
  avoids : ∀ id, id ≠ e.id → pc.Avoids id
  nextAvoids : ∀ pc' ∈ next.pcs, ∀ id, id ≠ e.id → pc'.Avoids id
  hands : pc.slots = 0 ∧ pc.reserved = 0 ∧ pc.claims = 0
  nextHands : (next.holds Pc.slots fun _ => 0) = 0 ∧ (next.holds Pc.reserved fun _ => 0) = 0 ∧
    (next.holds Pc.claims fun _ => 0) = 0
  id : e'.id = e.id
  users : e'.users + due (fun _ => 1) e.id pc =
    e.users + next.holds (due (fun _ => 1) e.id) fun _ => 0
  gap : e'.content.gap + due Inside.uncounted e.id pc =
    e.content.gap + next.holds (due Inside.uncounted e.id) fun _ => 0
  owed : e'.owed + due Inside.unbooked e.id pc =
    e.owed + next.holds (due Inside.unbooked e.id) fun _ => 0
  half : s.totalBytes + (e.memBytes : Int) +
      (next.holds (due Inside.halfBooked e.id) fun _ => 0) =
    c.shared.totalBytes + e'.memBytes + due Inside.halfBooked e.id pc
  spent : 0 ≤ share c e + s.totalBytes - c.shared.totalBytes

/-- The four kinds of steps: on the counters alone, an entry comes, goes, or is
worked on by one operation. -/
inductive Does (c : State) : Pc → Next Pc Answer → Accounts → Prop
  | totals {pc : Pc} {next : Next Pc Answer} {s : Accounts} (h : Tallies c pc next s) :
      Does c pc next s
  | publish (new : NewInner) (id : SharedId) :
      Does c (.publish new id) (.ret (.inserted id new.mem))
        { c.shared with live := c.shared.live ++ [⟨id, new.mem, new.content, 0, []⟩] }
  | remove {e : Entry} {kept kept' : List Entry}
      (split : Keyed.Split Entry.id c.shared.live e.id e kept kept') (unused : e.users = 0) :
      Does c (.dropRemove e.id) (.go (.dropCount e.id e.memBytes))
        { c.shared with live := kept ++ kept' }
  | entry {pc : Pc} {next : Next Pc Answer} {s : Accounts} {e e' : Entry} {kept kept' : List Entry}
      (h : Works c pc next s e e' kept kept') : Does c pc next s

namespace Booked

variable {c : State} {pc : Pc} {next : Next Pc Answer} {s : Accounts} {id : SharedId}

theorem split_of_find (h : Booked c) (hf : Keyed.find Entry.id c.shared.live id = some e) :
    e.id = id ∧ ∃ before after, Keyed.Split Entry.id c.shared.live e.id e before after := by
  obtain ⟨before, after, hsplit⟩ := Keyed.exists_split h.nodup hf
  obtain rfl := hsplit.here
  exact ⟨rfl, before, after, hsplit⟩

/-- An entry that an operation is inside of has a user. -/
theorem users_pos (h : Booked c) (he : e ∈ c.shared.live) (hpc : pc ∈ c.running)
    (ht : pc.target = some e.id) : 0 < e.users := by
  rw [(h.inOrder e he).users]
  have hle := c.le_inHands (due (fun _ => 1) e.id) hpc
  have hone : due (fun _ => 1) e.id pc = 1 := by
    cases pc with
    | inside id p => exact if_pos (Option.some.inj ht)
    | _ => cases ht
  omega

theorem dropRemove_inv (h : Booked c) (hout : (next, s) ∈ act S (.dropRemove id) c.shared) :
    ∃ e kept kept', id = e.id ∧ Keyed.Split Entry.id c.shared.live e.id e kept kept' ∧
      e.users = 0 ∧ next = .go (.dropCount e.id e.memBytes) ∧
      s = { c.shared with live := kept ++ kept' } := by
  simp only [act] at hout
  split at hout
  · next e hf =>
    obtain ⟨rfl, kept, kept', hsplit⟩ := h.split_of_find hf
    split at hout
    · next hu =>
      cases sole_outcome hout
      exact ⟨e, kept, kept', rfl, hsplit, hu, rfl, by rw [hsplit.erase_eq]⟩
    · cases hout
  · cases hout

/-- Entering an entry adds a user to it. -/
theorem does_enter (h : Booked c) {op : MapOp}
    (hout : (next, s) ∈ act S (.enter id op) c.shared) : Does c (.enter id op) next s := by
  have hst (f : Failure) : Does c (.enter id op) (.ret (.failed f)) c.shared :=
    .totals ⟨Pc.avoids_of_none rfl, Next.forall_pcs_ret _, rfl, rfl, rfl, .inl ⟨rfl, rfl⟩⟩
  simp only [act] at hout
  split at hout
  · cases sole_outcome hout
    exact hst _
  · next e hfi =>
    obtain ⟨rfl, before, after, hsplit⟩ := h.split_of_find hfi
    split at hout
    · cases sole_outcome hout
      exact hst _
    · obtain ⟨verdict, -, hv⟩ := List.mem_map.mp hout
      cases verdict with
      | error f =>
        cases hv
        exact hst f
      | ok _ =>
        cases hv
        let held : Entry := { e with users := e.users + 1 }
        have hs : ({ c.shared with
            live := Keyed.modify Entry.id c.shared.live e.id fun _ => held } : Accounts) =
          { c.shared with live := before ++ held :: after } := by
          rw [hsplit.modify_eq]
        have hz (f : Inside → Int) (hf : f (.update op) = 0) :
            (.go (.inside e.id (.update op)) : Next Pc Answer).holds (due f e.id) (fun _ => 0) =
              0 := by
          rw [Next.holds, due, if_pos rfl, hf]
        refine .entry ⟨hsplit, hs, fun id _ => Pc.avoids_of_none rfl id, ?_, ⟨rfl, rfl, rfl⟩,
          ⟨rfl, rfl, rfl⟩, rfl, ?_, ?_, ?_, ?_, ?_⟩
        · intro pc' hpc' id hid
          rw [List.mem_singleton.mp hpc']
          exact fun heq => hid (Option.some.inj heq).symm
        · simp only [due, Next.holds, if_true, add_zero, held]
        · rw [hz _ rfl]
          rfl
        · rw [hz _ rfl]
          rfl
        · rw [hz _ rfl]
          rfl
        · have hsh := (h.inOrder e hsplit.mem).share
          dsimp only
          omega

theorem holds_within {A : Type} [AddCommMonoid A] {f : Inside → A} {turn : Next Inside Answer} :
    (within id turn).holds (due f id) (fun _ => 0) = turn.holds f fun _ => 0 := by
  cases turn with
  | go p => exact if_pos rfl
  | ret answer => rfl

/-- A step inside an entry works on that entry alone. -/
theorem does_inside (h : Booked c) {p : Inside}
    (hpc : .inside id p ∈ c.running) (hok : overdraws c (.inside id p) = false)
    (hout : (next, s) ∈ act S (.inside id p) c.shared) : Does c (.inside id p) next s := by
  simp only [act] at hout
  split at hout
  · cases hout
  · next e hf =>
    obtain ⟨rfl, before, after, hsplit⟩ := h.split_of_find hf
    split at hout
    · cases hout
    · next m counted hmap =>
      obtain ⟨⟨turn, total⟩, ht, heq⟩ := List.mem_map.mp hout
      cases heq
      have ⟨hmem, hs⟩ :
          (∀ delta after, p = .bookMem delta after → 0 ≤ (e.memBytes : Int) + delta) ∧
          ∀ delta after, p = .bookTotal delta after → 0 ≤ share c e + delta := by
        constructor
        all_goals
          rintro delta after rfl
          have hnot := List.any_eq_false.mp hok e hsplit.mem
          simp only [beq_self_eq_true, Bool.true_and, decide_eq_true_eq] at hnot
          omega
      have hto : ∀ delta after, p = .bookTotal delta after →
          0 ≤ (c.shared.totalBytes : Int) + delta := by
        intro delta after hp
        have hle := h.share_le hsplit.mem
        have hnot := hs delta after hp
        omega
      have hse := act_settles hmap hmem hto ht
      have hst : ({ c.shared with
          live := Keyed.modify Entry.id c.shared.live e.id fun _ => leaving turn.1 turn.2
          totalBytes := total } : Accounts) =
        { c.shared with
          live := before ++ leaving turn.1 turn.2 :: after
          totalBytes := total } := by
        rw [hsplit.modify_eq]
      have hl : (leaving turn.1 turn.2).id = turn.2.id ∧
          (leaving turn.1 turn.2).content = turn.2.content ∧
          (leaving turn.1 turn.2).memBytes = turn.2.memBytes := by
        cases turn.1 <;> exact ⟨rfl, rfl, rfl⟩
      obtain ⟨hid, hc, hm⟩ := hl
      have hdue : ∀ {A : Type} [AddCommMonoid A] (f : Inside → A),
          due f e.id (.inside e.id p) = f p := fun f => if_pos rfl
      refine .entry ⟨hsplit, hst, ?_, ?_, ⟨rfl, rfl, rfl⟩, ?_, hid.trans hse.id, ?_, ?_, ?_,
        ?_, ?_⟩
      · exact fun id hid heq => hid (Option.some.inj heq).symm
      · intro pc' hpc' id hid
        cases hn : turn.1 with
        | go p'' =>
          rw [hn] at hpc'
          rw [List.mem_singleton.mp hpc']
          exact fun heq => hid (Option.some.inj heq).symm
        | ret answer =>
          rw [hn] at hpc'
          cases hpc'
      · cases turn.1 <;> exact ⟨rfl, rfl, rfl⟩
      · -- an operation that answers gives up its place among the users
        have hpos := h.users_pos hsplit.mem hpc rfl
        have hu := hse.users
        rw [holds_within, hdue]
        cases hn : turn.1 with
        | go p' => simp only [leaving, Next.holds, hu]
        | ret answer =>
          simp only [leaving, Next.holds, hu]
          omega
      · rw [holds_within, hdue, hc]
        exact hse.gap
      · rw [holds_within, hdue, Entry.owed, hc, hm]
        exact hse.owed
      · rw [holds_within, hdue, hm]
        exact hse.half
      · have hnow := (h.inOrder e hsplit.mem).share
        rcases hse.spent with hsa | ⟨delta, after, hp, hsp⟩
        · dsimp only
          omega
        · have hl := hs delta after hp
          dsimp only
          omega

/-- Every step is of one of the four kinds. -/
theorem does (h : Booked c) (hpc : pc ∈ c.running) (hok : overdraws c pc = false)
    (hout : (next, s) ∈ act S pc c.shared) : Does c pc next s := by
  have hw := h.not_wraps hpc
  have hone : ∀ {pc : Pc}, pc.target = none →
      ∀ pc' ∈ (.go pc : Next Pc Answer).pcs, ∀ id, pc'.Avoids id :=
    fun h pc' hpc' => List.mem_singleton.mp hpc' ▸ Pc.avoids_of_none h
  cases pc with
  | reserveEntry new | reserveBytes new =>
    cases sole_outcome hout
    split <;> exact .totals ⟨Pc.avoids_of_none rfl, hone rfl, rfl, rfl, rfl, .inl ⟨rfl, rfl⟩⟩
  | rollbackEntry f =>
    cases sole_outcome hout
    have hsub := fetchSub_of_le (Nat.not_lt.mp (of_decide_eq_false hw))
    exact .totals ⟨Pc.avoids_of_none rfl, Next.forall_pcs_ret _, rfl, hsub, rfl, .inl ⟨rfl, rfl⟩⟩
  | rollbackBytes mem f =>
    cases sole_outcome hout
    have hsub := fetchSub_of_le (Nat.not_lt.mp (of_decide_eq_false hw))
    exact .totals ⟨Pc.avoids_of_none rfl, hone rfl, rfl, rfl, hsub, .inl ⟨rfl, rfl⟩⟩
  | allocId new =>
    cases sole_outcome hout
    exact .totals ⟨Pc.avoids_of_none rfl, hone rfl, rfl, rfl, rfl, .inr ⟨rfl, rfl, rfl⟩⟩
  | publish new id =>
    cases sole_outcome hout
    exact .publish new id
  | dropRemove id =>
    obtain ⟨e, kept, kept', rfl, hsplit, hu, rfl, rfl⟩ := h.dropRemove_inv hout
    exact .remove hsplit hu
  | dropCount id mem =>
    cases sole_outcome hout
    have hsub := fetchSub_of_le (Nat.not_lt.mp (of_decide_eq_false hw))
    exact .totals ⟨Pc.avoids_of_none rfl, hone rfl, rfl, hsub, rfl, .inl ⟨rfl, rfl⟩⟩
  | dropBytes id mem =>
    cases sole_outcome hout
    have hsub := fetchSub_of_le (Nat.not_lt.mp (of_decide_eq_false hw))
    exact .totals ⟨Pc.avoids_of_none rfl, Next.forall_pcs_ret _, rfl, rfl, hsub, .inl ⟨rfl, rfl⟩⟩
  | enter id op => exact h.does_enter hout
  | inside id p => exact h.does_inside hpc hok hout

end Booked

/-! ## Every step keeps the books -/

variable {c c' : State}

/-- The operations owe this entry what they owed before. -/
structure SameDues (c c' : State) (id : SharedId) : Prop where
  nat : ∀ f : Inside → Nat, c'.inHands (due f id) = c.inHands (due f id)
  int : ∀ f : Inside → Int, c'.inHands (due f id) = c.inHands (due f id)

theorem SameDues.share_eq (h : SameDues c c' e.id) : share c' e = share c e := by
  rw [share, share, h.int]

theorem shares_eq {l : List Entry} (h : ∀ e ∈ l, SameDues c c' e.id) :
    l.map (share c') = l.map (share c) :=
  List.map_congr_left fun e he => (h e he).share_eq

/-- An entry stays in order while what it is owed does. -/
theorem InOrder.frame (h : InOrder c e) (hs : SameDues c c' e.id) : InOrder c' e where
  users := (hs.nat _).symm ▸ h.users
  gap := (hs.int _).symm ▸ h.gap
  owed := (hs.int _).symm ▸ h.owed
  share := hs.share_eq.symm ▸ h.share

/-- Two amounts that a step moves alike stay equal. -/
theorem eq_of_moved {A : Type} [AddCommMonoid A] [IsRightCancelAdd A] {a a' h h' d n : A}
    (ha : a' + d = a + n) (hh : h' + d = h + n) (heq : a = h) : a' = h' :=
  add_right_cancel (ha.trans (heq ▸ hh.symm))

section Step

variable {pc : Pc} {next : Next Pc Answer} {s : Accounts} {before after : List Pc}
  {id : SharedId} {kept kept' : List Entry}

theorem sameDues_call (k : Call) (id : SharedId) :
    SameDues c { c with running := c.running ++ [k.entry] } id := by
  have ha : k.entry.Avoids id := by
    cases k <;> exact Pc.avoids_of_none rfl id
  constructor
  all_goals
    intro f
    rw [Config.inHands_call, due_eq_zero ha, add_zero, Config.inHands]

theorem sameDues_act (hrunning : c.running = before ++ pc :: after)
    (ha : pc.Avoids id) (hn : ∀ pc' ∈ next.pcs, pc'.Avoids id) (answers : List Answer) :
    SameDues c ⟨s, before ++ next.pcs ++ after, answers⟩ id := by
  constructor
  all_goals
    intro f
    have hact := Config.inHands_act hrunning (due f id) next s answers
    rwa [due_eq_zero ha, holds_due_eq_zero hn, add_zero, add_zero] at hact

theorem dues_eq_zero {A : Type} [AddCommMonoid A] (f : Inside → A)
    (h : ∀ pc ∈ c.running, pc.Avoids id) : c.inHands (due f id) = 0 := by
  refine List.sum_eq_zero fun x hx => ?_
  obtain ⟨pc, hpc, rfl⟩ := List.mem_map.mp hx
  exact due_eq_zero (h pc hpc)

theorem Booked.call (h : Booked c) (k : Call) :
    Booked { c with running := c.running ++ [k.entry] } := by
  have hs := fun id => @sameDues_call c k id
  have ⟨hsl, hr, hc⟩ : k.entry.slots = 0 ∧ k.entry.reserved = 0 ∧ k.entry.claims = 0 := by
    cases k <;> exact ⟨rfl, rfl, rfl⟩
  have hcl : claims { c with running := c.running ++ [k.entry] } = claims c := by
    rw [claims, Config.inHands_call, hc, add_zero]
    rfl
  refine ⟨?_, ?_, ?_, fun e he => (h.inOrder e he).frame (hs e.id), ?_, ?_⟩
  · rw [hcl]
    exact h.distinct
  · rw [hcl]
    exact h.known
  · intro pc hpc
    rcases List.mem_append.mp hpc with hpc | hpc
    · exact h.inside pc hpc
    · rw [List.mem_singleton.mp hpc]
      intro id ht
      cases k <;> cases ht
  · rw [Config.inHands_call, hsl, add_zero]
    exact h.entries
  · rw [Config.inHands_call, hr, add_zero,
      shares_eq fun e _ => hs e.id]
    exact h.bytes

/-- A fresh id is above every id given out before. -/
theorem Tallies.claims_ok (h : Tallies c pc next s) (hb : Booked c)
    (hs : c'.shared = s) (hh : c'.inHands Pc.claims + pc.claims =
      c.inHands Pc.claims + next.holds Pc.claims fun _ => 0) :
    (claims c').Nodup ∧ ∀ id ∈ claims c', id < s.nextId := by
  have hl : c'.shared.live = c.shared.live := hs ▸ h.live
  rcases h.ids with ⟨hn, hsa⟩ | ⟨hn, hno, hone⟩
  · rw [hsa] at hh
    have hc : claims c' = claims c := by
      rw [claims, claims, hl, add_right_cancel hh]
    rw [hc, hn]
    exact ⟨hb.distinct, hb.known⟩
  · rw [hno, hone, add_zero] at hh
    have hc : claims c' = c.shared.nextId ::ₘ claims c := by
      rw [claims, claims, hl, hh, ← add_assoc, Multiset.add_comm _ {_},
        Multiset.singleton_add]
    rw [hc, hn]
    constructor
    · refine Multiset.nodup_cons.mpr ⟨fun hmem => ?_, hb.distinct⟩
      exact lt_irrefl _ (hb.known _ hmem)
    · intro id hid
      rcases Multiset.mem_cons.mp hid with rfl | hid
      · exact Nat.lt_succ_self _
      · exact Nat.lt_succ_of_lt (hb.known id hid)

theorem holds_frame {s' : Accounts} (h : ∀ pc' ∈ before ++ pc :: after, Holds s pc')
    (hl : ∀ e ∈ s.live, ∀ pc' ∈ before ++ pc :: after, pc'.target = some e.id →
      ∃ x ∈ s'.live, x.id = e.id) : ∀ pc' ∈ before ++ pc :: after, Holds s' pc' := by
  intro pc' hpc' id ht
  obtain ⟨e, he, rfl⟩ := h pc' hpc' id ht
  exact hl e he pc' hpc' ht

variable (answers : List Answer) (hrunning : c.running = before ++ pc :: after)

include hrunning

theorem Booked.totals (h : Booked c) (hd : Tallies c pc next s) :
    Booked ⟨s, before ++ next.pcs ++ after, answers⟩ := by
  have hs : ∀ id, SameDues c ⟨s, before ++ next.pcs ++ after, answers⟩ id := fun id =>
    sameDues_act hrunning (hd.avoids id) (fun pc' hpc' => hd.nextAvoids pc' hpc' id) answers
  obtain ⟨hdi, hk⟩ :=
    hd.claims_ok h rfl (Config.inHands_act hrunning Pc.claims next s answers)
  refine ⟨hdi, hk, ?_, ?_, ?_, ?_⟩
  · have hold := holds_frame (hrunning ▸ h.inside) fun e he _ _ _ =>
      ⟨e, hd.live.symm ▸ he, rfl⟩
    exact forall_running hold fun pc' hpc' id ht =>
      absurd ht (hd.nextAvoids pc' hpc' id)
  · intro e he
    exact (h.inOrder e (hd.live ▸ he)).frame (hs e.id)
  · have hsl := Config.inHands_act hrunning Pc.slots next s answers
    have hold := h.entries
    have hnew := hd.entries
    dsimp only
    rw [hd.live]
    omega
  · have hr := Config.inHands_act hrunning Pc.reserved next s answers
    have hold := h.bytes
    have hnew := hd.bytes
    dsimp only
    rw [hd.live, shares_eq fun e _ => hs e.id]
    omega

/-- Publishing turns the slot and the bytes of the insertion into an entry. -/
theorem Booked.publish (h : Booked c) {new : NewInner} (hpc : pc = .publish new id) :
    Booked ⟨{ c.shared with live := c.shared.live ++ [⟨id, new.mem, new.content, 0, []⟩] },
      before ++ [] ++ after, answers⟩ := by
  let e : Entry := ⟨id, new.mem, new.content, 0, []⟩
  let s' : Accounts := { c.shared with live := c.shared.live ++ [e] }
  let c' : State := ⟨s', before ++ [] ++ after, answers⟩
  change Booked c'
  have hact {A : Type} [AddCommMonoid A] (hand : Pc → A) :
      c'.inHands hand + hand pc = c.inHands hand + 0 :=
    Config.inHands_act hrunning hand (.ret (.inserted id new.mem)) s' answers
  rw [hpc] at hact
  have hs : ∀ id', SameDues c c' id' := fun id' =>
    ⟨fun f => hact (due f id'), fun f => by simpa [due] using hact (due f id')⟩
  have hc : claims c' = claims c := by
    rw [claims, claims, ← add_zero (c.inHands Pc.claims), ← hact Pc.claims]
    simp only [c', s', List.map_append, List.map_cons, List.map_nil, ← Multiset.coe_add,
      Multiset.coe_singleton, Pc.claims, e]
    abel
  have hst : ∀ pc ∈ c'.running, pc ∈ c.running := by
    intro pc hpc
    change pc ∈ before ++ [] ++ after at hpc
    rw [List.append_nil, List.mem_append] at hpc
    rw [hrunning]
    exact List.mem_append.mpr (hpc.imp_right (List.mem_cons_of_mem _))
  -- the id is the publisher's alone, so nobody can be inside the entry yet
  have hnew : ∀ pc ∈ c'.running, pc.Avoids id := by
    intro pc hpc ht
    obtain ⟨e', he', hid⟩ := h.inside pc (hst pc hpc) id ht
    have hl : id ∈ (c.shared.live.map Entry.id : Multiset SharedId) :=
      Multiset.mem_coe.mpr (List.mem_map.mpr ⟨e', he', hid⟩)
    have hcl : id ∈ c.inHands Pc.claims := by
      rw [← add_zero (c.inHands Pc.claims), ← hact Pc.claims]
      exact Multiset.mem_add.mpr (.inr (Multiset.mem_singleton_self id))
    exact Multiset.disjoint_left.mp (Multiset.nodup_add.mp h.distinct).2.2 hl hcl
  have hsh : share c' e = new.mem := by
    rw [share, dues_eq_zero _ hnew, sub_zero]
  refine ⟨hc.symm ▸ h.distinct, hc.symm ▸ h.known, ?_, ?_, ?_, ?_⟩
  · intro pc hpc id' ht
    obtain ⟨e', he', hid⟩ := h.inside pc (hst pc hpc) id' ht
    exact ⟨e', List.mem_append_left _ he', hid⟩
  · intro e' he'
    rcases List.mem_append.mp he' with he' | he'
    · exact (h.inOrder e' he').frame (hs e'.id)
    · rw [List.mem_singleton.mp he']
      have hgap : new.content.gap = 0 := by cases new <;> rfl
      refine ⟨?_, ?_, ?_, ?_⟩
      · exact (dues_eq_zero _ hnew).symm
      · exact hgap.trans (dues_eq_zero _ hnew).symm
      · refine Eq.trans ?_ (dues_eq_zero _ hnew).symm
        dsimp only [Entry.owed, NewInner.mem, e]
        rw [Content.memBytes_of_gap hgap]
        omega
      · exact hsh.symm ▸ Int.natCast_nonneg _
  · have hsl : c'.inHands Pc.slots + 1 = c.inHands Pc.slots + 0 := hact Pc.slots
    have hold := h.entries
    change c.shared.totalEntries = (c.shared.live ++ [e]).length + c'.inHands Pc.slots
    rw [List.length_append, List.length_singleton]
    omega
  · have hr : c'.inHands Pc.reserved + new.mem = c.inHands Pc.reserved + 0 :=
      hact Pc.reserved
    have hold := h.bytes
    have hshares : ((c.shared.live ++ [e]).map (share c')).sum =
        (c.shared.live.map (share c)).sum + new.mem := by
      rw [List.map_append, List.sum_append, shares_eq fun e _ => hs e.id]
      simp only [List.map_cons, List.map_nil, List.sum_cons, List.sum_nil, hsh, add_zero]
    change (c.shared.totalBytes : Int) =
      ((c.shared.live ++ [e]).map (share c')).sum + (c'.inHands Pc.reserved : Nat)
    omega

/-- A removal takes over the entry that has no users left. -/
theorem Booked.remove (h : Booked c) (hpc : pc = .dropRemove e.id)
    (hsplit : Keyed.Split Entry.id c.shared.live e.id e kept kept') (hu : e.users = 0) :
    Booked ⟨{ c.shared with live := kept ++ kept' },
      before ++ [.dropCount e.id e.memBytes] ++ after, answers⟩ := by
  let s' : Accounts := { c.shared with live := kept ++ kept' }
  let next : Next Pc Answer := .go (.dropCount e.id e.memBytes)
  let c' : State := ⟨s', before ++ next.pcs ++ after, answers⟩
  change Booked c'
  have hact {A : Type} [AddCommMonoid A] (hand : Pc → A) :
      c'.inHands hand + hand pc = c.inHands hand + hand (.dropCount e.id e.memBytes) :=
    Config.inHands_act hrunning hand next s' answers
  rw [hpc] at hact
  have hs : ∀ id, SameDues c c' id := fun id =>
    sameDues_act hrunning (hpc ▸ Pc.avoids_of_none rfl id)
      (fun pc' hpc' => List.mem_singleton.mp hpc' ▸ Pc.avoids_of_none rfl id) answers
  -- an entry without users has nobody inside
  have hn : ∀ pc ∈ c.running, pc.Avoids e.id := by
    intro pc hpc ht
    have hpos := h.users_pos hsplit.mem hpc ht
    omega
  have hsh : share c e = e.memBytes := by
    rw [share, dues_eq_zero _ hn, sub_zero]
  have hc : claims c = e.id ::ₘ claims c' := by
    have hids : (c.shared.live.map Entry.id : Multiset SharedId) =
        e.id ::ₘ ((kept ++ kept').map Entry.id : Multiset SharedId) := by
      rw [hsplit.eq, List.map_append, List.map_cons, List.map_append]
      exact Multiset.coe_eq_coe.mpr List.perm_middle
    have ho : c'.inHands Pc.claims = c.inHands Pc.claims := add_right_cancel (hact Pc.claims)
    rw [claims, claims, hids, ho, Multiset.cons_add]
  have hd := h.distinct
  rw [hc] at hd
  refine ⟨(Multiset.nodup_cons.mp hd).2, ?_, ?_, ?_, ?_, ?_⟩
  · intro id hid
    exact h.known id (by rw [hc]; exact Multiset.mem_cons_of_mem hid)
  · rw [hrunning] at hn
    have hold : ∀ pc' ∈ before ++ pc :: after, Holds s' pc' := by
      refine holds_frame (hrunning ▸ h.inside) fun x hx pc' hpc' ht => ?_
      rcases hsplit.mem_iff.mp hx with rfl | hx
      · exact absurd ht (hn pc' hpc')
      · exact ⟨x, hx, rfl⟩
    refine forall_running hold fun pc hpc id ht => ?_
    rw [List.mem_singleton.mp hpc] at ht
    cases ht
  · exact fun x hx => (h.inOrder x (hsplit.mem_iff.mpr (.inr hx))).frame (hs x.id)
  · have hsl : c'.inHands Pc.slots + 0 = c.inHands Pc.slots + 1 := hact Pc.slots
    have hold := h.entries
    rw [hsplit.eq, List.length_append, List.length_cons] at hold
    change c.shared.totalEntries = (kept ++ kept').length + c'.inHands Pc.slots
    rw [List.length_append]
    omega
  · have hr : c'.inHands Pc.reserved + 0 = c.inHands Pc.reserved + e.memBytes :=
      hact Pc.reserved
    have hold := h.bytes
    rw [hsplit.eq, List.map_append, List.map_cons, List.sum_append, List.sum_cons, hsh] at hold
    change (c.shared.totalBytes : Int) =
      ((kept ++ kept').map (share c')).sum + (c'.inHands Pc.reserved : Nat)
    rw [shares_eq fun e _ => hs e.id, List.map_append, List.sum_append]
    omega

/-- Work on one entry moves its share with the total. -/
theorem Booked.entry (h : Booked c) {e' : Entry} (hd : Works c pc next s e e' kept kept') :
    Booked ⟨s, before ++ next.pcs ++ after, answers⟩ := by
  let c' : State := ⟨s, before ++ next.pcs ++ after, answers⟩
  change Booked c'
  have hsplit := hd.split
  have hact {A : Type} [AddCommMonoid A] (hand : Pc → A) :
      c'.inHands hand + hand pc = c.inHands hand + next.holds hand fun _ => 0 :=
    Config.inHands_act hrunning hand next s answers
  have hl : s.live = kept ++ e' :: kept' := by rw [hd.state]
  have hn : s.nextId = c.shared.nextId := by rw [hd.state]
  have he : s.totalEntries = c.shared.totalEntries := by rw [hd.state]
  have hs : ∀ x ∈ kept ++ kept', SameDues c c' x.id := fun x hx =>
    sameDues_act hrunning (hd.avoids x.id (hsplit.elsewhere x hx))
      (fun pc' hpc' => hd.nextAvoids pc' hpc' x.id (hsplit.elsewhere x hx)) answers
  have hold := h.inOrder e hsplit.mem
  -- the entry's share moves with the total
  have hsh : share c' e' = share c e + s.totalBytes - c.shared.totalBytes := by
    have hh := hact (due Inside.halfBooked e.id)
    have hha := hd.half
    rw [share, share, hd.id]
    omega
  have hc : claims c' = claims c := by
    have hh := hact Pc.claims
    rw [hd.hands.2.2, hd.nextHands.2.2, add_zero, add_zero] at hh
    change ((s.live.map Entry.id : List SharedId) : Multiset SharedId) + c'.inHands Pc.claims = _
    rw [claims, hh, hl, hsplit.eq, List.map_append, List.map_append, List.map_cons,
      List.map_cons, hd.id]
  refine ⟨hc.symm ▸ h.distinct, ?_, ?_, ?_, ?_, ?_⟩
  · intro id hmem
    rw [hc] at hmem
    exact hn.symm ▸ h.known id hmem
  · have hmem : ∀ x ∈ c.shared.live, ∃ y ∈ s.live, y.id = x.id := by
      intro x hx
      rw [hl]
      rcases hsplit.mem_iff.mp hx with rfl | hx
      · exact ⟨e', List.mem_append_right _ List.mem_cons_self, hd.id⟩
      · have hin := (List.mem_append.mp hx).imp_right (List.mem_cons_of_mem e')
        exact ⟨x, List.mem_append.mpr hin, rfl⟩
    refine forall_running (holds_frame (hrunning ▸ h.inside) fun x hx _ _ _ => hmem x hx) ?_
    intro pc' hpc' id ht
    by_cases hid : id = e.id
    · rw [hid]
      exact hmem e hsplit.mem
    · exact absurd ht (hd.nextAvoids pc' hpc' id hid)
  · intro x hx
    change x ∈ s.live at hx
    rw [hl, List.mem_append, List.mem_cons] at hx
    have hca : x = e' ∨ x ∈ kept ++ kept' := by
      rw [List.mem_append]
      tauto
    rcases hca with rfl | hx
    · refine ⟨?_, ?_, ?_, ?_⟩
      · exact hd.id ▸ eq_of_moved hd.users (hact _) hold.users
      · exact hd.id ▸ eq_of_moved hd.gap (hact _) hold.gap
      · exact hd.id ▸ eq_of_moved hd.owed (hact _) hold.owed
      · rw [hsh]
        exact hd.spent
    · exact (h.inOrder x (hsplit.mem_iff.mpr (.inr hx))).frame (hs x hx)
  · have hsl := hact Pc.slots
    rw [hd.hands.1, hd.nextHands.1] at hsl
    have hco := h.entries
    rw [hsplit.eq, List.length_append, List.length_cons] at hco
    rw [hl, he, List.length_append, List.length_cons]
    omega
  · have hr := hact Pc.reserved
    rw [hd.hands.2.1, hd.nextHands.2.1] at hr
    have hb := h.bytes
    rw [hsplit.eq, List.map_append, List.map_cons, List.sum_append, List.sum_cons] at hb
    change (s.totalBytes : Int) = (s.live.map (share c')).sum + (c'.inHands Pc.reserved : Nat)
    rw [hl, List.map_append, List.map_cons, List.sum_append, List.sum_cons, hsh,
      shares_eq fun x hx => hs x (List.mem_append_left _ hx),
      shares_eq fun x hx => hs x (List.mem_append_right _ hx)]
    omega

end Step

/-- **Every step keeps the books.** -/
theorem Booked.step (h : Booked c)
    (hf : (machine S).Fires (fun c pc => overdraws c pc = false) c c') : Booked c' := by
  cases hf with
  | call k => exact h.call k
  | env e => cases e
  | @act before after pc next s hrunning hmet hout =>
    cases h.does (Config.mem_running hrunning) hmet hout with
    | totals hd => exact h.totals _ hrunning hd
    | publish new id => exact h.publish _ hrunning rfl
    | remove hsplit hu => exact h.remove _ hrunning rfl hsplit hu
    | entry hd => exact h.entry _ hrunning hd

theorem booked_start (seed : SharedId) : Booked (start seed) where
  distinct := Multiset.nodup_zero
  known := fun _ h => absurd h (Multiset.notMem_zero _)
  inside := List.forall_mem_nil _
  inOrder := List.forall_mem_nil _
  entries := rfl
  bytes := rfl

theorem Booked.run {seed : SharedId} {moves : List (Move Call Empty)}
    (hok : (machine S).Along (fun c pc => overdraws c pc = false) (start seed) moves)
    (hrun : (machine S).run (start seed) moves = some c) : Booked c :=
  Machine.run_invariant (fun _ _ => Booked.step) (booked_start seed) hok hrun

/-! ## When all operations have finished -/

/-- The books when no operation is in progress. -/
structure Exact (s : Accounts) : Prop where
  memBytes : ∀ e ∈ s.live, e.memBytes = e.content.memBytes + entryFixedOverhead
  totalBytes : s.totalBytes = (s.live.map Entry.memBytes).sum

/-- Nothing is owed once no operation runs. -/
theorem Booked.exact (h : Booked c) (hq : c.running = []) : Exact c.shared := by
  have hn : ∀ {A : Type} [AddCommMonoid A] (hand : Pc → A), c.inHands hand = 0 := by
    intro A _ hand
    rw [Config.inHands, hq, List.map_nil, List.sum_nil]
  constructor
  · intro e he
    have hgap := (h.inOrder e he).gap
    have ho := (h.inOrder e he).owed
    rw [hn] at hgap ho
    rw [Content.memBytes_of_gap hgap]
    unfold Entry.owed at ho
    omega
  · have hs : c.shared.live.map (share c) = c.shared.live.map fun e => (e.memBytes : Int) :=
      List.map_congr_left fun e _ => by rw [share, hn, sub_zero]
    have hb := h.bytes
    rw [hn, hs] at hb
    have hc : ((c.shared.live.map Entry.memBytes).sum : Int) =
        (c.shared.live.map fun e => (e.memBytes : Int)).sum := by
      rw [Nat.cast_list_sum, List.map_map]
      rfl
    omega

/-- **What is booked is what is there.** As long as no booking takes off more
than is booked, no subtraction wraps, and once all operations have finished
every entry records its size and the total is the sum over the live entries. -/
theorem booked_exactly (S : Setting) (seed : SharedId) (moves : List (Move Call Empty)) (c : State)
    (hok : (machine S).Along (fun c pc => overdraws c pc = false) (start seed) moves)
    (hrun : (machine S).run (start seed) moves = some c) :
    (machine S).Along (fun c pc => wraps c.shared pc = false) (start seed) moves ∧
      (c.running = [] → Exact c.shared) := by
  constructor
  · have hb := hok.and_invariant (fun _ _ => Booked.step) (booked_start seed)
    exact hb.imp fun c pc hpc h => h.2.not_wraps hpc
  · exact (Booked.run hok hrun).exact

/-- Integer keys in one shard, strings in the other. -/
def twoShards : Setting where
  maxEntries := 100
  maxBytes := 100000
  shards := 2
  shardOf := fun
    | .int _ => 0
    | .str _ => 1
  walker := fun _ _ => [.ok ()]

/-- A pop and the insertion of what it pops, either booking first. -/
def popsDuringSet (popFirst : Bool) : List (Move Call Empty) :=
  [Move.call (Call.insert (.map none)), .act 0 0, .act 0 0, .act 0 0, .act 0 0,
    .call (.insert (.other 800)), .act 0 0, .act 0 0, .act 0 0, .act 0 0,
    .call (.onMap 1 (.set (.int 5) (.string (List.replicate 400 65)))), .act 0 0, .act 0 0,
    .call (.onMap 1 (.pop (.int 5))), .act 1 0, .act 1 0] ++
  (if popFirst then [Move.act 1 0, .act 1 0, .act 1 0, .act 0 0, .act 0 0, .act 0 0]
    else [.act 0 0, .act 0 0, .act 0 0, .act 0 0, .act 0 0, .act 0 0])

theorem booked_exactly_popAfterSet :
    ∃ c, (machine twoShards).run (start 1) (popsDuringSet false) = some c ∧
      c.running = [] ∧ Exact c.shared := by
  have he : ((machine twoShards).run (start 1) (popsDuringSet false)).any
      (fun c => c.running.isEmpty) = true := by decide +kernel
  obtain ⟨c, hrun, hq⟩ := (Option.any_eq_true _ _).mp he
  have hok : (machine twoShards).Along (fun c pc => overdraws c pc = false) (start 1)
      (popsDuringSet false) := by
    refine Machine.along_of_check (fun c pc h => ?_)
      (show (machine twoShards).checkAlong (fun c pc => !overdraws c pc) _ _ = true by
        decide +kernel)
    exact Bool.not_eq_true' _ ▸ h
  have hex := booked_exactly twoShards 1 (popsDuringSet false) c hok hrun
  exact ⟨c, hrun, List.isEmpty_iff.mp hq, hex.2 (List.isEmpty_iff.mp hq)⟩

/-- The pop's booking stops at zero, so the insertion's stays: the total is no
longer the sum, and wraps when the entries drop. -/
theorem popBookedFirst_wraps_total :
    (∃ c, (machine twoShards).run (start 1) (popsDuringSet true) = some c ∧
      c.running = [] ∧ ¬Exact c.shared) ∧
    ∃ c, (machine twoShards).run (start 1) (popsDuringSet true ++ [Move.call (Call.drop 1),
        .act 0 0, .act 0 0, .act 0 0, .call (.drop 2), .act 0 0, .act 0 0]) =
          some c ∧ ∃ pc ∈ c.running, wraps c.shared pc = true := by
  constructor
  · have he : ((machine twoShards).run (start 1) (popsDuringSet true)).any (fun c =>
        c.running.isEmpty && c.shared.totalBytes != (c.shared.live.map Entry.memBytes).sum) =
          true := by decide +kernel
    obtain ⟨c, hrun, hc⟩ := (Option.any_eq_true _ _).mp he
    obtain ⟨hq, hoff⟩ := Bool.and_eq_true_iff.mp hc
    exact ⟨c, hrun, List.isEmpty_iff.mp hq, fun h => bne_iff_ne.mp hoff h.totalBytes⟩
  · have he : ((machine twoShards).run (start 1) (popsDuringSet true ++ [Move.call (Call.drop 1),
        .act 0 0, .act 0 0, .act 0 0, .call (.drop 2), .act 0 0, .act 0 0])).any
          (fun c => c.running.any (wraps c.shared)) = true := by decide +kernel
    obtain ⟨c, hrun, hc⟩ := (Option.any_eq_true _ _).mp he
    exact ⟨c, hrun, List.any_eq_true.mp hc⟩

end OxPhp.Shared.Accounting
