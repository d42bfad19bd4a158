import Mathlib.Algebra.BigOperators.Fin
import OxPhp.Lib.Effect
import OxPhp.Shared.Accounting

/-!
# A Map with its counters

The mutators of `types/map.rs`, run one at a time, with the striped counters and
the bytes they maintain.  A Map with counters does as the Map alone does.
-/

namespace OxPhp.Shared

open ByteStr ExceptInv
open Accounting (adjusted adjusted_of_nonneg)

/-- `STRIPE_COUNT`. -/
def stripeCount : Nat := 32

/-- A registered Map: the members and the cap, the stripes, `Entry::mem_bytes`
and the registry's `total_bytes`. -/
structure MapCell where
  inner : MapInner
  counts : Fin stripeCount → Int
  memBytes : Nat
  totalBytes : Nat

/-! ## Operations -/

/-- The mutators of a Map. -/
inductive MapCall where
  | set (key : MapKey) (value : SharedValue)
  | setMany (batch : List (MapKey × SharedValue))
  | setIfAbsent (key : MapKey) (value : SharedValue)
  | compareAndSet (key : MapKey) (expected new : Option SharedValue)
  | swap (key : MapKey) (value : SharedValue)
  | pop (key : MapKey)
  | remove (key : MapKey)
  | clear

/-- What they answer. -/
inductive MapAnswer where
  | stored (prev : Option SharedValue)
  | storedMany (inserted : Nat)
  | swapped (applied : Bool)
  | popped (value : Option SharedValue)
  | removed (existed : Bool)
  | cleared (removed : Nat)

/-- An answer, or a failure with the number of pairs stored before it. -/
abbrev MapResult := Except (Failure × Nat) MapAnswer

/-- `compare_and_set` of the Map alone, past the checks. -/
def MapInner.exchange (m : MapInner) (key : MapKey) (expected new : Option SharedValue) :
    Except Failure (Bool × MapInner) :=
  match m.entries.lookup key, expected with
  | some present, some e =>
    if svContentEq present e then
      match new with
      | some v => return (true, m.insert key v)
      | none => return (true, { m with entries := m.entries.erase key })
    else return (false, m)
  | some _, none => return (false, m)
  | none, some _ => return (false, m)
  | none, none =>
    match new with
    | some v => do return (true, ← m.addNew key v)
    | none => return (true, m)

theorem MapInner.compareAndSet_eq (m : MapInner) {cycleCheck : List SharedRef → Except Failure Unit}
    {key : MapKey} {expected new : Option SharedValue} :
    m.compareAndSet cycleCheck key expected new = (do
      MapInner.checkNew cycleCheck new
      m.exchange key expected new) := rfl

/-- A mutator of the Map alone. -/
def MapInner.exec (cycleCheck : List SharedRef → Except Failure Unit) (m : MapInner) :
    MapCall → MapResult × MapInner
  | .set key value => allOrNothing .stored (m.set cycleCheck key value)
  | .setMany batch =>
    ((m.setManyBatch cycleCheck batch).1.map .storedMany, (m.setManyBatch cycleCheck batch).2)
  | .setIfAbsent key value => allOrNothing .stored (m.setIfAbsent cycleCheck key value)
  | .compareAndSet key expected new =>
    allOrNothing .swapped (m.compareAndSet cycleCheck key expected new)
  | .swap key value => allOrNothing .stored (m.swap cycleCheck key value)
  | .pop key => (.ok (.popped (m.pop key).1), (m.pop key).2)
  | .remove key => (.ok (.removed (m.pop key).1.isSome), (m.pop key).2)
  | .clear => (.ok (.cleared m.clear.1), m.clear.2)
where
  allOrNothing {α : Type} (answer : α → MapAnswer) :
      Except Failure (α × MapInner) → MapResult × MapInner
    | .ok (a, after) => (.ok (answer a), after)
    | .error f => (.error (f, 0), m)

namespace MapCell

/-- A new Map, registered beside entries of so many bytes. -/
def new (maxEntries : Option Nat) (others : Nat) : MapCell where
  inner := .new maxEntries
  counts := fun _ => 0
  memBytes := (MapInner.new maxEntries).memBytes + entryFixedOverhead
  totalBytes := others + ((MapInner.new maxEntries).memBytes + entryFixedOverhead)

/-- The sum of the stripes, clamped at zero. -/
def count (c : MapCell) : Nat := (∑ i, c.counts i).toNat

/-- A mutator of the source: it changes the Map and its counters as it goes, and
what it has changed stays when it returns an error. -/
abbrev Mutator := EStateM Failure MapCell

/-- `Entry::adjust_mem_bytes`, as `track_map_delta` calls it. -/
def trackMapDelta (delta : Int) : Mutator Unit :=
  modify fun c =>
    { c with memBytes := adjusted c.memBytes delta, totalBytes := adjusted c.totalBytes delta }

/-- A member is stored. -/
def write (key : MapKey) (value : SharedValue) : Mutator Unit :=
  modify fun c => { c with inner := c.inner.insert key value }

/-- A member is removed. -/
def removeEntry (key : MapKey) : Mutator Unit :=
  modify fun c => { c with inner := (c.inner.pop key).2 }

section Mutators

variable (stripeIndex : MapKey → Fin stripeCount)

/-- The stripe of a key moves by `d`. -/
def bump (counts : Fin stripeCount → Int) (key : MapKey) (d : Int) : Fin stripeCount → Int :=
  Function.update counts (stripeIndex key) (counts (stripeIndex key) + d)

/-- `inc_count`. -/
def incCount (key : MapKey) : Mutator Unit :=
  modify fun c => { c with counts := bump stripeIndex c.counts key 1 }

/-- `dec_count`. -/
def decCount (key : MapKey) : Mutator Unit :=
  modify fun c => { c with counts := bump stripeIndex c.counts key (-1) }

/-- The `Occupied` arm of the mutators that overwrite. -/
def replaceOccupied (key : MapKey) (value prev : SharedValue) : Mutator Unit := do
  write key value
  trackMapDelta (value.memBytes - prev.memBytes)

/-- The `Vacant` arm of the mutators that insert, past the cap. -/
def insertVacant (key : MapKey) (value : SharedValue) : Mutator Unit := do
  incCount stripeIndex key
  write key value
  trackMapDelta (mapEntryCost key value)

/-- The cap, which only a new key is held against. -/
def checkCap (c : MapCell) : Except Failure Unit :=
  match c.inner.maxEntries with
  | some max => if c.count ≥ max then .error (MapInner.capacityFailure max) else .ok ()
  | none => .ok ()

/-- A new key, within the cap. -/
def addNew (key : MapKey) (value : SharedValue) : Mutator Unit := do
  Effect.check (checkCap (← get))
  insertVacant stripeIndex key value

/-- The `Occupied` arm of the mutators that remove. -/
def removeOccupied (key : MapKey) (prev : SharedValue) : Mutator Unit := do
  removeEntry key
  trackMapDelta (-mapEntryCost key prev)
  decCount stripeIndex key

/-- The body that `set`, `set_without_cycle_check` and `swap` repeat. -/
def store (key : MapKey) (value : SharedValue) : Mutator (Option SharedValue) := do
  match (← get).inner.entries.lookup key with
  | some prev =>
    replaceOccupied key value prev
    return some prev
  | none =>
    addNew stripeIndex key value
    return none

/-- `set_without_cycle_check`. -/
def setWithoutCycleCheck (key : MapKey) (value : SharedValue) : Mutator (Option SharedValue) := do
  Effect.check (MapInner.rejectUnstorable value)
  store stripeIndex key value

/-- The loop of `set_many_batch`: what is stored stays when a later pair fails. -/
def setEach : Nat → List (MapKey × SharedValue) → EStateM (Failure × Nat) MapCell Nat
  | inserted, [] => pure inserted
  | inserted, (key, value) :: rest => do
    let _prev ← (setWithoutCycleCheck stripeIndex key value).adaptExcept fun f => (f, inserted)
    setEach (inserted + 1) rest

/-- `pop`. -/
def pop (key : MapKey) : Mutator (Option SharedValue) := do
  match (← get).inner.entries.lookup key with
  | some prev =>
    removeOccupied stripeIndex key prev
    return some prev
  | none => return none

/-- `retain` visits every member: it takes it off its stripe and adds up the
bytes, which are booked once at the end. -/
def clear : Mutator Nat := do
  let c ← get
  modify fun c =>
    { c with
      inner := { c.inner with entries := ∅ }
      counts := (c.inner.entries.entries.map Sigma.fst).foldl
        (fun counts key => bump stripeIndex counts key (-1)) c.counts }
  trackMapDelta (-c.inner.costs)
  return c.inner.entries.entries.length

variable (cycleCheck : List SharedRef → Except Failure Unit)

/-- The checks of a candidate, before anything is touched. -/
def checkCandidate (value : SharedValue) : Mutator Unit := do
  Effect.check (MapInner.rejectUnstorable value)
  Effect.check (cycleCheck (collectSharedRefs value))

/-- `set`. -/
def set (key : MapKey) (value : SharedValue) : Mutator (Option SharedValue) := do
  checkCandidate cycleCheck value
  store stripeIndex key value

/-- `swap`. -/
def swap (key : MapKey) (value : SharedValue) : Mutator (Option SharedValue) := do
  checkCandidate cycleCheck value
  store stripeIndex key value

/-- `set_many_batch`. -/
def setManyBatch (batch : List (MapKey × SharedValue)) : EStateM (Failure × Nat) MapCell Nat := do
  (Effect.check (cycleCheck (batch.flatMap fun kv => collectSharedRefs kv.2)) :
    Mutator Unit).adaptExcept fun f => (f, 0)
  setEach stripeIndex 0 batch

/-- `set_if_absent`. -/
def setIfAbsent (key : MapKey) (value : SharedValue) : Mutator (Option SharedValue) := do
  checkCandidate cycleCheck value
  match (← get).inner.entries.lookup key with
  | some prev => return some prev
  | none =>
    addNew stripeIndex key value
    return none

/-- The checks of a new value, if there is one. -/
def checkNew : Option SharedValue → Mutator Unit
  | some v => checkCandidate cycleCheck v
  | none => pure ()

/-- `compare_and_set`, past the checks. -/
def exchange (key : MapKey) (expected new : Option SharedValue) : Mutator Bool := do
  match (← get).inner.entries.lookup key with
  | some present =>
    if expected.any (svContentEq present) then
      match new with
      | some v =>
        replaceOccupied key v present
        return true
      | none =>
        removeOccupied stripeIndex key present
        return true
    else return false
  | none =>
    if expected.isSome then return false
    else
      match new with
      | some v =>
        addNew stripeIndex key v
        return true
      | none => return true

/-- `compare_and_set`. -/
def compareAndSet (key : MapKey) (expected new : Option SharedValue) : Mutator Bool := do
  checkNew cycleCheck new
  exchange stripeIndex key expected new

/-- A call that stores all or nothing, so that no pair is left by a failure. -/
def single {α : Type} (answer : α → MapAnswer) (x : Mutator α) :
    EStateM (Failure × Nat) MapCell MapAnswer := do
  let a ← x.adaptExcept fun f => (f, 0)
  return answer a

/-- A mutator. -/
def exec : MapCall → EStateM (Failure × Nat) MapCell MapAnswer
  | .set key value => single .stored (set stripeIndex cycleCheck key value)
  | .setMany batch => do
    let inserted ← setManyBatch stripeIndex cycleCheck batch
    return .storedMany inserted
  | .setIfAbsent key value => single .stored (setIfAbsent stripeIndex cycleCheck key value)
  | .compareAndSet key expected new =>
    single .swapped (compareAndSet stripeIndex cycleCheck key expected new)
  | .swap key value => single .stored (swap stripeIndex cycleCheck key value)
  | .pop key => single .popped (pop stripeIndex key)
  | .remove key => single (fun value => .removed value.isSome) (pop stripeIndex key)
  | .clear => single .cleared (clear stripeIndex)

/-- A run of calls, each with what the cycle walker answers it. -/
def run (c : MapCell) (calls : List ((List SharedRef → Except Failure Unit) × MapCall)) : MapCell :=
  calls.foldl (fun c call => Effect.after ((exec stripeIndex call.1 call.2).run c)) c

end Mutators

/-! ## The counters -/

/-- The counters agree with the members, beside entries of `others` bytes. -/
structure Sound (others : Nat) (c : MapCell) : Prop where
  counted : ∑ i, c.counts i = c.inner.count
  booked : c.memBytes = c.inner.memBytes + entryFixedOverhead
  total : c.totalBytes = others + c.memBytes
  storable : ∀ v ∈ c.inner.values, v ≠ .null

variable {stripeIndex : MapKey → Fin stripeCount}
  {cycleCheck : List SharedRef → Except Failure Unit} {others : Nat} {c : MapCell} {key : MapKey}
  {value prev : SharedValue}

/-- A bumped stripe moves the sum. -/
theorem sum_bump (counts : Fin stripeCount → Int) (key : MapKey) (d : Int) :
    ∑ i, bump stripeIndex counts key d i = ∑ i, counts i + d := by
  have hk : ∀ i, bump stripeIndex counts key d i =
      counts i + if i = stripeIndex key then d else 0 := by
    intro i
    unfold bump
    by_cases hi : i = stripeIndex key
    · rw [hi, Function.update_self, if_pos rfl]
    · rw [Function.update_of_ne hi, if_neg hi, add_zero]
  rw [Finset.sum_congr rfl fun i _ => hk i, Finset.sum_add_distrib, Finset.sum_ite_eq',
    if_pos (Finset.mem_univ _)]

theorem sum_foldl_bump (keys : List MapKey) (counts : Fin stripeCount → Int) :
    ∑ i, keys.foldl (fun counts key => bump stripeIndex counts key (-1)) counts i =
      ∑ i, counts i - keys.length := by
  induction keys generalizing counts with
  | nil => simp
  | cons key keys ih =>
    rw [List.foldl_cons, ih, sum_bump, List.length_cons]
    push_cast
    omega

namespace Sound

theorem count_eq (h : Sound others c) : c.count = c.inner.count := by
  rw [count, h.counted, Int.toNat_natCast]

/-- A booking by what the members changed keeps the counters sound. -/
theorem moved (h : Sound others c) {c' : MapCell} {delta : Int}
    (hc : ∑ i, c'.counts i = c'.inner.count)
    (hsize : (c'.inner.memBytes : Int) = c.inner.memBytes + delta)
    (hmem : c'.memBytes = adjusted c.memBytes delta)
    (ht : c'.totalBytes = adjusted c.totalBytes delta)
    (hs : ∀ v ∈ c'.inner.values, v ≠ .null) : Sound others c' := by
  have hb := h.booked
  have hsum := h.total
  have hmem' : (c'.memBytes : Int) = c.memBytes + delta := by
    rw [hmem]
    exact adjusted_of_nonneg (by omega)
  have ht' : (c'.totalBytes : Int) = c.totalBytes + delta := by
    rw [ht]
    exact adjusted_of_nonneg (by omega)
  exact ⟨hc, by omega, by omega, hs⟩

/-- An overwrite books the difference. -/
theorem replaced (h : Sound others c) (hp : c.inner.entries.lookup key = some prev)
    (hva : value ≠ .null) :
    Sound others (Effect.after ((replaceOccupied key value prev).run c)) := by
  obtain ⟨hc, hco⟩ : (c.inner.insert key value).costs + mapEntryCost key prev =
      c.inner.costs + mapEntryCost key value ∧ (c.inner.insert key value).count = c.inner.count :=
    MapInner.costs_insert_old hp
  refine h.moved (h.counted.trans (congrArg Nat.cast hco.symm)) ?_ rfl rfl ?_
  · change ((c.inner.insert key value).memBytes : Int) = _
    rw [MapInner.memBytes_eq, MapInner.memBytes_eq]
    simp only [mapEntryCost, mapEntryCostParts] at hc
    omega
  · intro v hv
    rcases MapInner.mem_values_insert hv with rfl | hv
    · exact hva
    · exact h.storable v hv

/-- An insert books the new member. -/
theorem inserted (h : Sound others c) (hnew : c.inner.entries.lookup key = none)
    (hva : value ≠ .null) :
    Sound others (Effect.after ((insertVacant stripeIndex key value).run c)) := by
  obtain ⟨hc, hco⟩ : (c.inner.insert key value).costs = c.inner.costs +
      mapEntryCost key value ∧ (c.inner.insert key value).count = c.inner.count + 1 :=
    MapInner.costs_insert_new hnew
  refine h.moved ?_ ?_ rfl rfl ?_
  · change ∑ i, bump stripeIndex c.counts key 1 i = ((c.inner.insert key value).count : Int)
    rw [sum_bump, h.counted, hco]
    rfl
  · change ((c.inner.insert key value).memBytes : Int) = _
    rw [MapInner.memBytes_eq, MapInner.memBytes_eq, hc]
    push_cast
    omega
  · intro v hv
    rcases MapInner.mem_values_insert hv with rfl | hv
    · exact hva
    · exact h.storable v hv

/-- A removal books the member back. -/
theorem removed (h : Sound others c) (hp : c.inner.entries.lookup key = some prev) :
    Sound others (Effect.after ((removeOccupied stripeIndex key prev).run c)) := by
  obtain ⟨hc, hco⟩ := MapInner.costs_pop hp
  refine h.moved ?_ ?_ rfl rfl ?_
  · change ∑ i, bump stripeIndex c.counts key (-1) i = ((c.inner.pop key).2.count : Int)
    rw [sum_bump, h.counted]
    omega
  · change ((c.inner.pop key).2.memBytes : Int) = _
    rw [MapInner.memBytes_eq, MapInner.memBytes_eq]
    omega
  · exact fun v hv => h.storable v (MapInner.mem_values_erase hv)

/-- A clear books everything back at once. -/
theorem cleared (h : Sound others c) : Sound others (Effect.after ((clear stripeIndex).run c)) := by
  refine h.moved ?_ ?_ rfl rfl nofun
  · change ∑ i, (c.inner.entries.entries.map Sigma.fst).foldl
      (fun counts key => bump stripeIndex counts key (-1)) c.counts i = 0
    rw [sum_foldl_bump, h.counted, MapInner.count_eq, List.length_map, sub_self]
  · change (128 : Int) = c.inner.memBytes + -(c.inner.costs : Int)
    rw [MapInner.memBytes_eq]
    omega

end Sound

theorem sound_new (maxEntries : Option Nat) (others : Nat) : Sound others (new maxEntries others) :=
  ⟨Finset.sum_const_zero, rfl, rfl, nofun⟩

/-! ## A Map with counters does as the Map alone does -/

/-- The run of a mutator ends as the operation on the Map alone does; success
leaves the counters sound, and a failure everything as it was. -/
inductive Follows {α : Type} (others : Nat) (c : MapCell) :
    EStateM.Result Failure MapCell α → Except Failure (α × MapInner) → Prop
  | ok {a : α} {c' : MapCell} (sound : Sound others c') :
      Follows others c (.ok a c') (.ok (a, c'.inner))
  | error {f : Failure} : Follows others c (.error f c) (.error f)

section Follows

variable {α : Type} {rest : Unit → Mutator α} {new expected : Option SharedValue}

theorem Follows.check {x : Except Failure Unit} {m : Except Failure (α × MapInner)}
    (h : x = .ok () → Follows others c ((rest ()).run c) m) :
    Follows others c ((Effect.check x >>= rest).run c) (x >>= fun _ => m) := by
  rw [Effect.run_check_bind]
  cases x with
  | ok u => exact h rfl
  | error f => exact .error

theorem storable_of_ok (h : MapInner.rejectUnstorable value = .ok ()) : value ≠ .null := by
  rintro rfl
  cases h

theorem Sound.addNew_eq (h : Sound others c) :
    c.inner.addNew key value = (checkCap c).map fun _ => c.inner.insert key value := by
  unfold MapInner.addNew checkCap
  rw [h.count_eq]
  cases c.inner.maxEntries with
  | none => rfl
  | some max =>
    dsimp only
    split <;> rfl

theorem run_addNew : (addNew stripeIndex key value).run c = match checkCap c with
    | .ok _ => (insertVacant stripeIndex key value).run c
    | .error f => .error f c := by
  rw [addNew, EStateM.run_bind, EStateM.run_get]
  dsimp only
  rw [Effect.run_check_bind]
  cases checkCap c <;> rfl

theorem follows_addNew (h : Sound others c) (hnew : c.inner.entries.lookup key = none)
    (hv : value ≠ .null) (a : α) :
    Follows others c ((addNew stripeIndex key value >>= fun _ => pure a).run c)
      (do return (a, ← c.inner.addNew key value)) := by
  rw [EStateM.run_bind, run_addNew, h.addNew_eq]
  cases checkCap c with
  | ok u => exact .ok (h.inserted hnew hv)
  | error f => exact .error

/-- A store does as it does on the Map alone. -/
theorem follows_store (h : Sound others c) (hv : value ≠ .null) :
    Follows others c ((store stripeIndex key value).run c) (match c.inner.entries.lookup key with
        | some prev => .ok (some prev, c.inner.insert key value)
        | none => do return (none, ← c.inner.addNew key value)) := by
  rw [store, EStateM.run_bind, EStateM.run_get]
  dsimp only
  cases hkey : c.inner.entries.lookup key with
  | some prev => exact .ok (h.replaced hkey hv)
  | none => exact follows_addNew h hkey hv none

theorem follows_setWithoutCycleCheck (h : Sound others c) :
    Follows others c ((setWithoutCycleCheck stripeIndex key value).run c)
      (c.inner.setWithoutCycleCheck key value) :=
  .check fun hv => follows_store h (storable_of_ok hv)

theorem Follows.candidate {m : Except Failure (α × MapInner)}
    (h : value ≠ .null → Follows others c ((rest ()).run c) m) :
    Follows others c ((checkCandidate cycleCheck value >>= rest).run c) (do
      MapInner.rejectUnstorable value
      cycleCheck (collectSharedRefs value)
      m) := by
  rw [checkCandidate, bind_assoc]
  exact .check fun hv => .check fun _ => h (storable_of_ok hv)

theorem rejectUnstorable_of_ne (h : value ≠ .null) : MapInner.rejectUnstorable value = .ok () := by
  cases value with
  | null => exact absurd rfl h
  | _ => rfl

theorem follows_set (h : Sound others c) :
    Follows others c ((set stripeIndex cycleCheck key value).run c)
      (c.inner.set cycleCheck key value) := by
  refine .candidate fun hv => ?_
  rw [MapInner.setWithoutCycleCheck, rejectUnstorable_of_ne hv]
  exact follows_store h hv

theorem follows_swap (h : Sound others c) :
    Follows others c ((swap stripeIndex cycleCheck key value).run c)
      (c.inner.swap cycleCheck key value) :=
  follows_set h

theorem follows_setIfAbsent (h : Sound others c) :
    Follows others c ((setIfAbsent stripeIndex cycleCheck key value).run c)
      (c.inner.setIfAbsent cycleCheck key value) := by
  refine .candidate fun hv => ?_
  rw [EStateM.run_bind, EStateM.run_get]
  dsimp only
  cases hkey : c.inner.entries.lookup key with
  | some prev => exact .ok h
  | none => exact follows_addNew h hkey hv none

theorem Follows.checkNew {m : Except Failure (α × MapInner)}
    (h : (∀ v, new = some v → v ≠ .null) → Follows others c ((rest ()).run c) m) :
    Follows others c ((MapCell.checkNew cycleCheck new >>= rest).run c)
      (MapInner.checkNew cycleCheck new >>= fun _ => m) := by
  cases new with
  | none => exact h nofun
  | some v =>
    have hsplit : (MapInner.checkNew cycleCheck (some v) >>= fun _ => m) = (do
        MapInner.rejectUnstorable v
        cycleCheck (collectSharedRefs v)
        m) := bind_assoc _ _ _
    rw [hsplit]
    exact .candidate fun hv => h fun w hw => Option.some.inj hw ▸ hv

/-- So does the exchange. -/
theorem follows_exchange (h : Sound others c) (hnew : ∀ v, new = some v → v ≠ .null) :
    Follows others c ((exchange stripeIndex key expected new).run c)
      (c.inner.exchange key expected new) := by
  unfold exchange MapInner.exchange
  rw [EStateM.run_bind, EStateM.run_get]
  dsimp only
  cases hkey : c.inner.entries.lookup key with
  | some present =>
    cases expected with
    | none => exact .ok h
    | some e =>
      dsimp only [Option.any]
      split
      · cases new with
        | some v => exact .ok (h.replaced hkey (hnew v rfl))
        | none => exact .ok (h.removed hkey)
      · exact .ok h
  | none =>
    cases expected with
    | some e => exact .ok h
    | none =>
      cases new with
      | some v => exact follows_addNew h hkey (hnew v rfl) true
      | none => exact .ok h

theorem follows_compareAndSet (h : Sound others c) :
    Follows others c ((compareAndSet stripeIndex cycleCheck key expected new).run c)
      (c.inner.compareAndSet cycleCheck key expected new) := by
  rw [MapInner.compareAndSet_eq]
  exact .checkNew fun hnew => follows_exchange h hnew

theorem pop_absent {m : MapInner} (h : m.entries.lookup key = none) : (m.pop key).2 = m := by
  have hk : m.entries.entries.kerase key = m.entries.entries :=
    List.kerase_of_notMem_keys (AList.lookup_eq_none.mp h)
  have he : m.entries.erase key = m.entries := AList.ext hk
  rw [MapInner.pop, he]

theorem follows_pop (h : Sound others c) :
    Follows others c ((pop stripeIndex key).run c) (.ok (c.inner.pop key)) := by
  rw [pop, EStateM.run_bind, EStateM.run_get]
  dsimp only
  cases hkey : c.inner.entries.lookup key with
  | some prev =>
    have hpop : c.inner.pop key = (some prev, (c.inner.pop key).2) := Prod.ext hkey rfl
    rw [hpop]
    exact .ok (h.removed hkey)
  | none =>
    have hpop : c.inner.pop key = (none, c.inner) := Prod.ext hkey (pop_absent hkey)
    rw [hpop]
    exact .ok h

theorem follows_clear (h : Sound others c) :
    Follows others c ((clear stripeIndex).run c) (.ok c.inner.clear) := by
  rw [MapInner.clear, MapInner.count_eq]
  exact .ok h.cleared

end Follows

/-! ## Calls -/

/-- A call does as it would on the Map alone, and leaves the counters sound. -/
structure Does {α : Type} (others : Nat) (r : EStateM.Result (Failure × Nat) MapCell α)
    (m : Except (Failure × Nat) α × MapInner) : Prop where
  answer : Effect.answer r = m.1
  inner : (Effect.after r).inner = m.2
  sound : Sound others (Effect.after r)

variable {α : Type} {answer : α → MapAnswer} {n : Nat} {f : Failure} {c' : MapCell} {call : MapCall}

theorem Does.map {x : EStateM (Failure × Nat) MapCell α} {m : Except (Failure × Nat) α × MapInner}
    (h : Does others (x.run c) m) (answer : α → MapAnswer) :
    Does others ((x >>= fun a => pure (answer a)).run c) (m.1.map answer, m.2) := by
  obtain ⟨ha, hin, hs⟩ := h
  rw [EStateM.run_bind]
  cases hx : x.run c with
  | ok a c' | error e c' =>
    rw [hx] at ha hin hs
    rw [← ha]
    exact ⟨rfl, hin, hs⟩

theorem does_single {x : Mutator α} {m : Except Failure (α × MapInner)} (h : Sound others c)
    (hx : Follows others c (x.run c) m) :
    Does others ((single answer x).run c) (MapInner.exec.allOrNothing c.inner answer m) := by
  rw [single, EStateM.run_bind, Effect.run_adaptExcept]
  generalize x.run c = r at hx ⊢
  cases hx with
  | ok sound => exact ⟨rfl, rfl, sound⟩
  | error => exact ⟨rfl, rfl, h⟩

/-- A batch does as it does on the Map alone, pair by pair. -/
theorem does_setEach (h : Sound others c) (inserted : Nat) (batch : List (MapKey × SharedValue)) :
    Does others ((setEach stripeIndex inserted batch).run c) (c.inner.setEach inserted batch) := by
  induction batch generalizing c inserted with
  | nil => exact ⟨rfl, rfl, h⟩
  | cons kv batch ih =>
    obtain ⟨key, value⟩ := kv
    have hfirst : Follows others c ((setWithoutCycleCheck stripeIndex key value).run c)
        (c.inner.setWithoutCycleCheck key value) := follows_setWithoutCycleCheck h
    rw [setEach, EStateM.run_bind, Effect.run_adaptExcept, MapInner.setEach]
    generalize (setWithoutCycleCheck stripeIndex key value).run c = r at hfirst ⊢
    generalize c.inner.setWithoutCycleCheck key value = m at hfirst ⊢
    cases hfirst with
    | ok sound => exact ih sound (inserted + 1)
    | error => exact ⟨rfl, rfl, h⟩

/-- What a Map makes of a batch: the pairs it stores, one by one, how many they are, and
why it stops before the end.  A pair is stored if its value is not null and its key is
there already or finds room. -/
inductive BatchStored : MapInner → List (MapKey × SharedValue) → Nat → Option Failure →
    MapInner → Prop
  | all {m : MapInner} : BatchStored m [] 0 none m
  | pair {m m' : MapInner} {key : MapKey} {value : SharedValue}
      {batch : List (MapKey × SharedValue)} {n : Nat} {failure : Option Failure}
      (storable : value ≠ .null)
      (room : m.entries.lookup key = none →
        ∀ max, m.maxEntries = some max → m.entries.keys.length < max)
      (rest : BatchStored (m.insert key value) batch n failure m') :
      BatchStored m ((key, value) :: batch) (n + 1) failure m'
  | null {m : MapInner} {key : MapKey} {batch : List (MapKey × SharedValue)} {f : Failure}
      (refused : MapInner.rejectUnstorable .null = .error f) :
      BatchStored m ((key, .null) :: batch) 0 (some f) m
  | full {m : MapInner} {key : MapKey} {value : SharedValue}
      {batch : List (MapKey × SharedValue)} {max : Nat} (storable : value ≠ .null)
      (absent : m.entries.lookup key = none) (cap : m.maxEntries = some max)
      (reached : max ≤ m.entries.keys.length) :
      BatchStored m ((key, value) :: batch) 0 (some (MapInner.capacityFailure max)) m

/-- How a batch that stops with a failure, or none, ends. -/
def batchEnd {α : Type} (a : α) (n : Nat) (c : MapCell) :
    Option Failure → EStateM.Result (Failure × Nat) MapCell α
  | none => .ok a c
  | some f => .error (f, n) c

/-- A pair that is stored leaves the batch to the pairs behind it, and one that is refused
ends it. -/
theorem batchStored_cons (m : MapInner) (key : MapKey) (value : SharedValue)
    (batch : List (MapKey × SharedValue)) :
    match m.setWithoutCycleCheck key value with
    | .ok (_, m₁) => ∀ n failure m', BatchStored m₁ batch n failure m' →
      BatchStored m ((key, value) :: batch) (n + 1) failure m'
    | .error f => BatchStored m ((key, value) :: batch) 0 (some f) m := by
  by_cases hv : value = .null
  · subst hv
    exact .null rfl
  rw [MapInner.setWithoutCycleCheck, rejectUnstorable_of_ne hv]
  cases hkey : m.entries.lookup key with
  | some prev => exact fun _ _ _ => .pair hv (by simp [hkey])
  | none =>
    rw [MapInner.addNew]
    cases hmax : m.maxEntries with
    | none => exact fun _ _ _ => .pair hv (by simp [hmax])
    | some max =>
      by_cases hf : m.count ≥ max
      · simp only [if_pos hf]
        exact .full hv hkey hmax hf
      · simp only [if_neg hf]
        refine fun _ _ _ => .pair hv fun _ max' hm => ?_
        cases hmax.symm.trans hm
        exact Nat.lt_of_not_le hf

/-- A batch stores the pairs before the first that fails. -/
theorem setEach_stores (h : Sound others c) (inserted : Nat)
    (batch : List (MapKey × SharedValue)) :
    ∃ n failure c', BatchStored c.inner batch n failure c'.inner ∧
      (setEach stripeIndex inserted batch).run c =
        batchEnd (inserted + n) (inserted + n) c' failure ∧
      (setEach stripeIndex inserted (batch.take n)).run c = .ok (inserted + n) c' := by
  induction batch generalizing c inserted with
  | nil => exact ⟨0, none, c, .all, rfl, rfl⟩
  | cons kv batch ih =>
    obtain ⟨key, value⟩ := kv
    have hfirst : Follows others c ((setWithoutCycleCheck stripeIndex key value).run c)
        (c.inner.setWithoutCycleCheck key value) := follows_setWithoutCycleCheck h
    have hpair := batchStored_cons c.inner key value batch
    generalize c.inner.setWithoutCycleCheck key value = m at hfirst hpair
    cases hset : (setWithoutCycleCheck stripeIndex key value).run c with
    | error f c₁ =>
      rw [hset] at hfirst
      cases hfirst
      refine ⟨0, some f, c, hpair, ?_, rfl⟩
      rw [setEach, EStateM.run_bind, Effect.run_adaptExcept, hset]
      rfl
    | ok prev c₁ =>
      rw [hset] at hfirst
      obtain ⟨hs⟩ := hfirst
      obtain ⟨n, failure, c', hb, hrun, htake⟩ := ih hs (inserted + 1)
      refine ⟨n + 1, failure, c', hpair n failure c'.inner hb, ?_, ?_⟩
      · rw [setEach, EStateM.run_bind, Effect.run_adaptExcept, hset]
        rw [Nat.add_right_comm] at hrun
        exact hrun
      · rw [List.take_succ_cons, setEach, EStateM.run_bind, Effect.run_adaptExcept, hset]
        rw [Nat.add_right_comm] at htake
        exact htake

theorem run_setMany (batch : List (MapKey × SharedValue)) :
    (exec stripeIndex cycleCheck (.setMany batch)).run c =
      match cycleCheck (batch.flatMap fun kv => collectSharedRefs kv.2) with
      | .error f => .error (f, 0) c
      | .ok _ => (setEach stripeIndex 0 batch >>= fun n => pure (.storedMany n)).run c := by
  rw [exec, setManyBatch, bind_assoc, EStateM.run_bind, Effect.run_adaptExcept]
  cases cycleCheck (batch.flatMap fun kv => collectSharedRefs kv.2) <;> rfl

/-- **A Map with counters does as the Map alone does.** -/
theorem does_exec (h : Sound others c) (call : MapCall) :
    Does others ((exec stripeIndex cycleCheck call).run c) (c.inner.exec cycleCheck call) := by
  cases call with
  | set key value => exact does_single h (follows_set h)
  | setIfAbsent key value => exact does_single h (follows_setIfAbsent h)
  | compareAndSet key expected new => exact does_single h (follows_compareAndSet h)
  | swap key value => exact does_single h (follows_swap h)
  | pop key | remove key => exact does_single h (follows_pop h)
  | clear => exact does_single h (follows_clear h)
  | setMany batch =>
    rw [run_setMany]
    dsimp only [MapInner.exec, MapInner.setManyBatch]
    cases cycleCheck (batch.flatMap fun kv => collectSharedRefs kv.2) with
    | error e => exact ⟨rfl, rfl, h⟩
    | ok u =>
      have hb : Does others ((setEach stripeIndex 0 batch).run c) (c.inner.setEach 0 batch) :=
        does_setEach h 0 batch
      exact hb.map .storedMany

theorem Sound.run (h : Sound others c)
    (calls : List ((List SharedRef → Except Failure Unit) × MapCall)) :
    Sound others (c.run stripeIndex calls) :=
  List.foldlRecOn calls _ h fun _ h call _ => (does_exec h call.2).sound

theorem single_failed {x : Mutator α} {m : Except Failure (α × MapInner)} {e : Failure × Nat}
    (hx : Follows others c (x.run c) m) (hrun : (single answer x).run c = .error e c') :
    c' = c := by
  rw [single, EStateM.run_bind, Effect.run_adaptExcept] at hrun
  generalize x.run c = r at hx hrun
  cases hx with
  | ok sound => cases hrun
  | error =>
    cases hrun
    rfl

/-- A call that fails, batches apart, changes nothing. -/
theorem exec_failed {e : Failure × Nat} (h : Sound others c)
    (hcall : ∀ batch, call ≠ .setMany batch)
    (hrun : (exec stripeIndex cycleCheck call).run c = .error e c') : c' = c := by
  cases call with
  | set key value => exact single_failed (follows_set h) hrun
  | setIfAbsent key value => exact single_failed (follows_setIfAbsent h) hrun
  | compareAndSet key expected new => exact single_failed (follows_compareAndSet h) hrun
  | swap key value => exact single_failed (follows_swap h) hrun
  | pop key | remove key => exact single_failed (follows_pop h) hrun
  | clear => exact single_failed (follows_clear h) hrun
  | setMany batch => exact absurd rfl (hcall batch)

theorem setMany_stores (h : Sound others c) (batch : List (MapKey × SharedValue))
    (hc : cycleCheck (batch.flatMap fun kv => collectSharedRefs kv.2) = .ok ()) :
    ∃ n failure c', BatchStored c.inner batch n failure c'.inner ∧
      (exec stripeIndex cycleCheck (.setMany batch)).run c =
        batchEnd (.storedMany n) n c' failure ∧
      (exec stripeIndex (fun _ => .ok ()) (.setMany (batch.take n))).run c =
        .ok (.storedMany n) c' := by
  obtain ⟨n, failure, c', hb, hrun, htake⟩ := @setEach_stores stripeIndex _ _ h 0 batch
  refine ⟨n, failure, c', hb, ?_, ?_⟩
  · rw [run_setMany, hc]
    dsimp only
    rw [EStateM.run_bind, hrun, Nat.zero_add]
    cases failure <;> rfl
  · rw [run_setMany]
    dsimp only
    rw [EStateM.run_bind, htake, Nat.zero_add]
    rfl

/-! ## Caps -/

/-- The calls that may add a key. -/
def inserting (key : MapKey) (value : SharedValue) : List MapCall :=
  [.set key value, .swap key value, .setIfAbsent key value,
    .compareAndSet key none (some value)]

/-- The calls that overwrite one. -/
def overwriting (key : MapKey) (value : SharedValue) : List MapCall :=
  [.set key value, .swap key value]

/-- A new key is refused at the cap. -/
theorem inner_refuses {m : MapInner} {max : Nat} (hnew : m.entries.lookup key = none)
    (hmax : m.maxEntries = some max) (hf : max ≤ m.count) (hv : value ≠ .null)
    (hc : cycleCheck (collectSharedRefs value) = .ok ()) (hca : call ∈ inserting key value) :
    (m.exec cycleCheck call).1 = .error (MapInner.capacityFailure max, 0) := by
  have hr := rejectUnstorable_of_ne hv
  have hadd : m.addNew key value = .error (MapInner.capacityFailure max) := by
    rw [MapInner.addNew, hmax]
    exact if_pos hf
  have hs : m.setWithoutCycleCheck key value = .error (MapInner.capacityFailure max) := by
    rw [MapInner.setWithoutCycleCheck, hr, hnew, hadd]
    rfl
  have hset : m.set cycleCheck key value = .error (MapInner.capacityFailure max) := by
    rw [MapInner.set, hr, hc]
    exact hs
  simp only [inserting, List.mem_cons, List.not_mem_nil, or_false] at hca
  rcases hca with rfl | rfl | rfl | rfl
  · exact congrArg (fun r => (MapInner.exec.allOrNothing m .stored r).1) hset
  · exact congrArg (fun r => (MapInner.exec.allOrNothing m .stored r).1) hset
  · rw [MapInner.exec, MapInner.setIfAbsent, hr, hc, hnew, hadd]
    rfl
  · have hsw : m.compareAndSet cycleCheck key none (some value) =
        .error (MapInner.capacityFailure max) := by
      rw [MapInner.compareAndSet_eq, MapInner.checkNew, hr, hc]
      unfold MapInner.exchange
      rw [hnew]
      dsimp only
      rw [hadd]
      rfl
    rw [MapInner.exec, hsw]
    rfl

/-- A key that is there is overwritten, at the cap too. -/
theorem inner_overwrites {m : MapInner} (hp : m.entries.lookup key = some prev)
    (hv : value ≠ .null) (hc : cycleCheck (collectSharedRefs value) = .ok ())
    (hca : call ∈ overwriting key value) :
    ∃ a, m.exec cycleCheck call = (.ok a, m.insert key value) := by
  have hr := rejectUnstorable_of_ne hv
  have hs : m.setWithoutCycleCheck key value = .ok (some prev, m.insert key value) := by
    rw [MapInner.setWithoutCycleCheck, hr, hp]
    rfl
  have hset : m.set cycleCheck key value = .ok (some prev, m.insert key value) := by
    rw [MapInner.set, hr, hc]
    exact hs
  simp only [overwriting, List.mem_cons, List.not_mem_nil, or_false] at hca
  rcases hca with rfl | rfl <;>
    exact ⟨_, congrArg (MapInner.exec.allOrNothing m .stored) hset⟩

theorem inner_exchanges {m : MapInner} {expected : SharedValue}
    (hp : m.entries.lookup key = some prev) (hs : svContentEq prev expected = true)
    (hv : value ≠ .null) (hc : cycleCheck (collectSharedRefs value) = .ok ()) :
    m.exec cycleCheck (.compareAndSet key (some expected) (some value)) =
      (.ok (.swapped true), m.insert key value) := by
  have hsw : m.compareAndSet cycleCheck key (some expected) (some value) =
      .ok (true, m.insert key value) := by
    rw [MapInner.compareAndSet_eq, MapInner.checkNew, rejectUnstorable_of_ne hv, hc]
    unfold MapInner.exchange
    rw [hp]
    exact if_pos hs
  rw [MapInner.exec, hsw]
  rfl

theorem Sound.overwrote (h : Sound others c) {a : MapAnswer}
    (hp : c.inner.entries.lookup key = some prev)
    (hin : c.inner.exec cycleCheck call = (.ok a, c.inner.insert key value)) :
    ∃ a c', (exec stripeIndex cycleCheck call).run c = .ok a c' ∧
      c'.inner.entries.lookup key = some value ∧ c'.count = c.count := by
  obtain ⟨ha, hm, hs⟩ : Does others ((exec stripeIndex cycleCheck call).run c)
      (c.inner.exec cycleCheck call) := does_exec h call
  rw [hin] at ha hm
  cases hrun : (exec stripeIndex cycleCheck call).run c with
  | error e c' =>
    rw [hrun] at ha
    cases ha
  | ok a' c' =>
    rw [hrun] at hm hs
    have hm : c'.inner = c.inner.insert key value := hm
    have hc : (c.inner.insert key value).count = c.inner.count :=
      (MapInner.costs_insert_old hp).2
    refine ⟨a', c', rfl, ?_, ?_⟩
    · rw [hm, MapInner.insert]
      exact AList.lookup_insert _
    · have hco : c'.count = c'.inner.count := hs.count_eq
      rw [hco, hm, hc, h.count_eq]

/-! ## The mutators step by step

`Accounting` has the same mutators beside others, with their bookings as later
steps and a count that may come out on either side of the cap. -/

/-- A step leaves the members that the Map alone has after the operation, were
there no cap; or it is refused because there is one. -/
def StepsAs (e : Accounting.Entry) (m : MapInner) (r : MapInner → Except Failure (α × MapInner))
    (turn : Accounting.Turn) : Prop :=
  (∃ a m' counted, r { m with maxEntries := none } = .ok (a, { m' with maxEntries := none }) ∧
      turn.2.content = .map m' counted) ∨
    m.maxEntries.isSome ∧ turn.2 = e

section StepsAs

variable {S : Accounting.Setting} {e : Accounting.Entry} {m : MapInner} {counted : Int}
  {turn : Accounting.Turn}

theorem insertVacant_stepsAs {rest : Accounting.Rest} {fail : Failure → Accounting.Answer}
    (ht : turn ∈ Accounting.insertVacant e m counted key value rest fail) (a : α) :
    StepsAs e m (fun m => do return (a, ← m.addNew key value)) turn := by
  rcases List.mem_cons.mp ht with rfl | hf
  · exact .inl ⟨a, m.insert key value, counted + 1, rfl, rfl⟩
  · split at hf
    · next max hmax => exact .inr ⟨by rw [hmax]; rfl, by rw [List.mem_singleton.mp hf]⟩
    · cases hf

/-- The store that `set`, `swap` and the batches share, in both models. -/
theorem store_stepsAs {rest : Option SharedValue → Accounting.Rest}
    {fail : Failure → Accounting.Answer} (hv : value ≠ .null)
    (ht : turn ∈ Accounting.store S e m counted key value rest fail) :
    StepsAs e m (·.setWithoutCycleCheck key value) turn := by
  unfold Accounting.store at ht
  unfold MapInner.setWithoutCycleCheck
  rw [rejectUnstorable_of_ne hv]
  cases hkey : m.entries.lookup key with
  | some prev =>
    rw [hkey] at ht
    rw [List.mem_singleton.mp ht]
    refine .inl ⟨some prev, m.insert key value, counted, ?_, rfl⟩
    dsimp only
    rw [hkey]
    rfl
  | none =>
    rw [hkey] at ht
    have hs := insertVacant_stepsAs ht (none : Option SharedValue)
    unfold StepsAs at hs ⊢
    dsimp only at hs ⊢
    rw [hkey]
    exact hs

/-- `compare_and_set` past the checks, in both models. -/
theorem compareAndSet_stepsAs {expected new : Option SharedValue}
    (hmap : e.content = .map m counted)
    (ht : turn ∈ Accounting.compareAndSet S e m counted key expected new) :
    StepsAs e m (·.exchange key expected new) turn := by
  unfold Accounting.compareAndSet at ht
  unfold StepsAs MapInner.exchange
  dsimp only
  cases hkey : m.entries.lookup key with
  | some present =>
    rw [hkey] at ht
    cases expected with
    | none => exact .inl ⟨_, m, counted, rfl, List.mem_singleton.mp ht ▸ hmap⟩
    | some x =>
      dsimp only at ht ⊢
      split at ht
      · next heq =>
        rw [if_pos heq]
        cases new with
        | some v =>
          rw [List.mem_singleton.mp ht]
          exact .inl ⟨_, m.insert key v, counted, rfl, rfl⟩
        | none =>
          rw [List.mem_singleton.mp ht]
          exact .inl ⟨_, (m.pop key).2, counted, rfl, rfl⟩
      · next hne =>
        rw [if_neg hne]
        exact .inl ⟨_, m, counted, rfl, List.mem_singleton.mp ht ▸ hmap⟩
  | none =>
    rw [hkey] at ht
    cases expected with
    | some x => exact .inl ⟨_, m, counted, rfl, List.mem_singleton.mp ht ▸ hmap⟩
    | none =>
      cases new with
      | some v => exact insertVacant_stepsAs ht true
      | none => exact .inl ⟨_, m, counted, rfl, List.mem_singleton.mp ht ▸ hmap⟩

end StepsAs

/-! ## Runs -/

/-- What holds of a Map between two calls. -/
structure Behaves (stripeIndex : MapKey → Fin stripeCount) (c : MapCell) : Prop where
  counts : c.count = c.inner.entries.keys.length
  noNull : ∀ key, c.inner.entries.lookup key ≠ some .null
  failure : ∀ cycleCheck call e c', (∀ batch, call ≠ .setMany batch) →
    (exec stripeIndex cycleCheck call).run c = .error e c' → c' = c
  -- a batch is refused as a whole by the cycle check only; otherwise it stores the pairs before
  -- the one that fails, as a batch of them alone does, and reports their number
  batchRefused : ∀ cycleCheck batch f,
    cycleCheck (batch.flatMap fun kv => collectSharedRefs kv.2) = .error f →
    (exec stripeIndex cycleCheck (.setMany batch)).run c = .error (f, 0) c
  batchStores : ∀ cycleCheck batch,
    cycleCheck (batch.flatMap fun kv => collectSharedRefs kv.2) = .ok () →
    ∃ n failure c', BatchStored c.inner batch n failure c'.inner ∧
      (exec stripeIndex cycleCheck (.setMany batch)).run c =
        batchEnd (.storedMany n) n c' failure ∧
      (exec stripeIndex (fun _ => .ok ()) (.setMany (batch.take n))).run c =
        .ok (.storedMany n) c'
  refuses : ∀ cycleCheck key value max, c.inner.entries.lookup key = none →
    c.inner.maxEntries = some max → max ≤ c.inner.entries.keys.length → value ≠ .null →
    cycleCheck (collectSharedRefs value) = .ok () → ∀ call ∈ inserting key value,
    (exec stripeIndex cycleCheck call).run c = .error (MapInner.capacityFailure max, 0) c
  overwrites : ∀ cycleCheck key value prev, c.inner.entries.lookup key = some prev →
    value ≠ .null → cycleCheck (collectSharedRefs value) = .ok () →
    ∀ call, (call ∈ overwriting key value ∨ ∃ expected, svContentEq prev expected = true ∧
      call = .compareAndSet key (some expected) (some value)) →
    ∃ a c', (exec stripeIndex cycleCheck call).run c = .ok a c' ∧
      c'.inner.entries.lookup key = some value ∧ c'.count = c.count

/-- A Map whose counters are sound behaves. -/
theorem Sound.behaves (h : Sound others c) : Behaves stripeIndex c where
  counts := h.count_eq
  noNull := by
    intro key hn
    have hmem : (⟨key, .null⟩ : Sigma fun _ : MapKey => SharedValue) ∈ c.inner.entries.entries :=
      AList.mem_lookup_iff.mp hn
    exact h.storable .null (List.mem_map_of_mem hmem) rfl
  failure := fun _ _ _ _ hcall hrun => exec_failed h hcall hrun
  batchRefused := by
    intro cycleCheck batch f hc
    rw [run_setMany, hc]
  batchStores := fun _ batch hc => setMany_stores h batch hc
  refuses := by
    intro cycleCheck key value max hnew hmax hf hv hc call hca
    have han : Effect.answer ((exec stripeIndex cycleCheck call).run c) =
        .error (MapInner.capacityFailure max, 0) := by
      rw [(does_exec h call).answer]
      exact inner_refuses hnew hmax hf hv hc hca
    cases hrun : (exec stripeIndex cycleCheck call).run c with
    | ok a c' =>
      rw [hrun] at han
      cases han
    | error e c' =>
      rw [hrun] at han
      cases han
      have hcall : ∀ batch, call ≠ .setMany batch := by
        rintro batch rfl
        simp [inserting] at hca
      rw [exec_failed h hcall hrun]
  overwrites := by
    intro cycleCheck key value prev hp hv hc call hca
    rcases hca with hca | ⟨expected, hs, rfl⟩
    · obtain ⟨a, ha⟩ := inner_overwrites hp hv hc hca
      exact h.overwrote hp ha
    · exact h.overwrote hp (inner_exchanges hp hs hv hc)

/-- **Maps keep their counters.** After every sequence of calls, whatever the
cap and the stripes, the count is the number of keys and no key is null; a call
that fails leaves the Map, the stripes and the bytes as they were, but for the
pairs a batch has already stored; a new key at the cap is refused and an old one
overwritten. -/
theorem run_behaves (stripeIndex : MapKey → Fin stripeCount) (maxEntries : Option Nat)
    (others : Nat) (calls : List ((List SharedRef → Except Failure Unit) × MapCall)) :
    Behaves stripeIndex ((new maxEntries others).run stripeIndex calls) :=
  ((sound_new maxEntries others).run calls).behaves

/-- One stripe for all keys. -/
def firstStripe : Fin stripeCount := ⟨0, Nat.succ_pos 31⟩

/-- A batch whose second pair is null. -/
def nullSecond : MapCall := .setMany [(.int 1, .long 7), (.int 2, .null)]

/-- The batch fails and its first pair is stored. -/
theorem failed_setMany_keeps_first_pair : ∃ f c',
    (exec (fun _ => firstStripe) (fun _ => .ok ()) nullSecond).run (new none 0) = .error (f, 1) c' ∧
      (new none 0).count = 0 ∧ c'.count = 1 ∧ c'.memBytes = (new none 0).memBytes + 96 := by
  refine ⟨_, _, rfl, ?_, ?_, ?_⟩
  all_goals decide +kernel

end MapCell

end OxPhp.Shared
