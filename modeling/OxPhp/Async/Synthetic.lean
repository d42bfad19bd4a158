import OxPhp.Lib.ByteStr

/-!
# Synthetic promises

`plugins/ox_async/synthetic.rs`: promise ids with a one-shot sender each, so
that a suspended fiber can be woken from another thread.  The first to resolve
an id takes its sender; it reaches the fiber when the receiver is still there.
-/

namespace OxPhp.Async

open ByteStr

abbrev PromiseId := Int

/-- What a fiber is woken with. The keepalive pins what the bytes refer to. -/
inductive PromisePayload (κ : Type) where
  | value (bytes : Bytes) (keepalive : κ)
  | exception (className message : Bytes)
  | cancelled

/-- The senders not used yet, each with whether its receiver is still there, and
what was delivered so far. -/
structure Senders (κ : Type) where
  nextId : PromiseId
  waiting : List (PromiseId × Bool)
  delivered : List (PromiseId × PromisePayload κ)

variable {κ : Type}

namespace Senders

def empty : Senders κ where
  nextId := -(2 ^ 63) + 1
  waiting := []
  delivered := []

def Unresolved (senders : Senders κ) (id : PromiseId) : Prop :=
  (senders.waiting.lookup id).isSome = true

instance (senders : Senders κ) (id : PromiseId) : Decidable (senders.Unresolved id) :=
  inferInstanceAs (Decidable (_ = true))

/-- The counter is an `AtomicI64`; it is not taken to wrap. -/
def alloc (senders : Senders κ) : PromiseId × Senders κ :=
  (senders.nextId,
    { senders with
      nextId := senders.nextId + 1
      waiting := (senders.nextId, true) :: senders.waiting })

/-- Up to `i64::MAX` the machine's counter is the model's; from the first id on
that is after 2⁶⁴ - 2 promises. -/
theorem alloc_no_wrap (senders : Senders κ) (hmin : (-2 ^ 63 : Int) ≤ senders.nextId)
    (hmax : (2 ^ 63 - 1 : Int) > senders.nextId) :
    (Int64.ofInt senders.nextId + 1).toInt = senders.alloc.2.nextId := by
  have hid : (Int64.ofInt senders.nextId).toInt = senders.nextId :=
    Int64.toInt_ofInt_of_le hmin (by omega)
  rw [Int64.toInt_add, hid, Int64.toInt_one]
  exact Int.bmod_eq_of_le (by omega) (by omega)

/-- Take the promise's sender and deliver; whether the payload reached a
receiver. -/
def resolve (senders : Senders κ) (id : PromiseId) (payload : PromisePayload κ) :
    Bool × Senders κ :=
  match senders.waiting.lookup id with
  | none => (false, senders)
  | some alive =>
    (alive,
      { senders with
        waiting := senders.waiting.filter fun p => p.1 != id
        delivered := if alive then (id, payload) :: senders.delivered else senders.delivered })

def resolveValue (senders : Senders κ) (id : PromiseId) (bytes : Bytes) (keepalive : κ) :
    Bool × Senders κ :=
  senders.resolve id (.value bytes keepalive)

def cancel (senders : Senders κ) (id : PromiseId) : Bool × Senders κ :=
  senders.resolve id .cancelled

def dropReceiver (senders : Senders κ) (id : PromiseId) : Senders κ :=
  { senders with
    waiting := senders.waiting.map fun p => if p.1 = id then (p.1, false) else p }

/-! ### Unresolved promises -/

section Unresolved

variable {senders : Senders κ} {id x : PromiseId}

theorem unresolved_iff : senders.Unresolved x ↔ ∃ alive, (x, alive) ∈ senders.waiting := by
  simp [Unresolved, List.lookup_isSome_iff]

variable {payload : PromisePayload κ}

theorem unresolved_resolve :
    (senders.resolve id payload).2.Unresolved x ↔ senders.Unresolved x ∧ x ≠ id := by
  unfold resolve
  split
  · next hn =>
    refine ⟨fun h => ⟨h, ?_⟩, fun h => h.1⟩
    rintro rfl
    rw [Unresolved, hn] at h
    cases h
  · simp only [unresolved_iff, List.mem_filter, bne_iff_ne, exists_and_right]

theorem resolve_nextId : (senders.resolve id payload).2.nextId = senders.nextId := by
  unfold resolve
  split <;> rfl

theorem unresolved_alloc :
    senders.alloc.2.Unresolved x ↔ x = senders.alloc.1 ∨ senders.Unresolved x := by
  simp only [unresolved_iff, alloc, List.mem_cons, Prod.mk.injEq]
  constructor
  · rintro ⟨alive, ⟨rfl, -⟩ | h⟩
    · exact .inl rfl
    · exact .inr ⟨alive, h⟩
  · rintro (rfl | ⟨alive, h⟩)
    · exact ⟨true, .inl ⟨rfl, rfl⟩⟩
    · exact ⟨alive, .inr h⟩

theorem unresolved_dropReceiver (h : (senders.dropReceiver id).Unresolved x) :
    senders.Unresolved x := by
  obtain ⟨alive, h⟩ := unresolved_iff.mp h
  obtain ⟨⟨y, alive'⟩, hmem, heq⟩ := List.mem_map.mp h
  refine unresolved_iff.mpr ⟨alive', ?_⟩
  split at heq
  all_goals
    cases heq
    exact hmem

theorem waiting_eq_nil (h : ∀ x, ¬senders.Unresolved x) : senders.waiting = [] :=
  List.eq_nil_iff_forall_not_mem.mpr fun entry hmem =>
    h entry.1 (unresolved_iff.mpr ⟨entry.2, hmem⟩)

/-! ### Promises whose receiver is still there -/

/-- Whoever resolves the promise next reaches its receiver. -/
def Live (senders : Senders κ) (id : PromiseId) : Prop := senders.waiting.lookup id = some true

instance (senders : Senders κ) (id : PromiseId) : Decidable (senders.Live id) :=
  inferInstanceAs (Decidable (_ = _))

theorem Live.unresolved (h : senders.Live id) : senders.Unresolved id := by
  rw [Unresolved, h, Option.isSome_some]

theorem resolve_fst : (senders.resolve id payload).1 = true ↔ senders.Live id := by
  unfold resolve Live
  split
  · next hn => simp [hn]
  · next hs => simp [hs]

theorem lookup_filter_ne (waiting : List (PromiseId × Bool)) (hne : x ≠ id) :
    (waiting.filter fun p => p.1 != id).lookup x = waiting.lookup x := by
  induction waiting with
  | nil => rfl
  | cons entry rest ih =>
    obtain ⟨y, alive⟩ := entry
    by_cases hy : y = id
    · have hbeq : (x == id) = false := beq_eq_false_iff_ne.mpr hne
      simp [hy, List.lookup_cons, ih, hbeq]
    · simp [hy, List.lookup_cons, ih]

theorem live_resolve (hne : x ≠ id) : (senders.resolve id payload).2.Live x ↔ senders.Live x := by
  unfold resolve Live
  split
  · exact Iff.rfl
  · rw [lookup_filter_ne _ hne]

theorem live_alloc_self : senders.alloc.2.Live senders.alloc.1 := by
  simp [Live, alloc]

theorem live_alloc (hne : x ≠ senders.alloc.1) : senders.alloc.2.Live x ↔ senders.Live x := by
  have hbeq : (x == senders.nextId) = false := by simpa [alloc] using hne
  simp [Live, alloc, List.lookup_cons, hbeq]

theorem lookup_dropReceiver (waiting : List (PromiseId × Bool)) :
    (waiting.map fun p => if p.1 = id then (p.1, false) else p).lookup x =
      (waiting.lookup x).map fun alive => if x = id then false else alive := by
  induction waiting with
  | nil => rfl
  | cons entry rest ih =>
    obtain ⟨y, alive⟩ := entry
    by_cases hxy : x = y
    · subst hxy
      by_cases hx : x = id <;> simp [hx]
    · have hbeq : (x == y) = false := beq_eq_false_iff_ne.mpr hxy
      by_cases hy : y = id
      · simp [hy, List.lookup_cons, hy ▸ hbeq, ih]
      · simp [hy, List.lookup_cons, hbeq, ih]

theorem live_dropReceiver : (senders.dropReceiver id).Live x ↔ senders.Live x ∧ x ≠ id := by
  unfold Live dropReceiver
  rw [lookup_dropReceiver]
  by_cases hx : x = id <;> simp [hx]

/-! ### Delivered promises -/

structure Sound (senders : Senders κ) : Prop where
  aged : ∀ x, senders.Unresolved x → x < senders.nextId
  deliveredAged : ∀ x ∈ senders.delivered, x.1 < senders.nextId
  apart : ∀ x ∈ senders.delivered, ¬senders.Unresolved x.1

theorem sound_empty : (empty : Senders κ).Sound := ⟨nofun, nofun, nofun⟩

theorem Sound.lookup (h : senders.Sound) (hun : senders.Unresolved x) :
    senders.delivered.lookup x = none := by
  rw [List.lookup_eq_none_iff]
  intro entry he
  have hne : x ≠ entry.1 := by
    rintro rfl
    exact h.apart entry he hun
  simpa using hne

theorem mem_delivered_resolve {entry : PromiseId × PromisePayload κ} :
    entry ∈ (senders.resolve id payload).2.delivered ↔
      entry ∈ senders.delivered ∨ (entry = (id, payload) ∧ senders.Live id) := by
  unfold resolve Live
  split
  · next hn => simp [hn]
  · next alive hs =>
    cases alive
    · simp [hs]
    · simp [hs, or_comm]

theorem lookup_resolve_ne (hne : x ≠ id) :
    (senders.resolve id payload).2.delivered.lookup x = senders.delivered.lookup x := by
  have hbeq : (x == id) = false := beq_eq_false_iff_ne.mpr hne
  unfold resolve
  split
  · rfl
  · next alive _ => cases alive <;> simp [List.lookup_cons, hbeq]

theorem lookup_resolve_self (hl : senders.Live id) :
    (senders.resolve id payload).2.delivered.lookup id = some payload := by
  have hlo : senders.waiting.lookup id = some true := hl
  simp [resolve, hlo]

theorem delivered_resolve (hd : ¬senders.Live id) :
    (senders.resolve id payload).2.delivered = senders.delivered := by
  unfold resolve
  split
  · rfl
  · next alive hl =>
    cases alive
    · rfl
    · exact absurd hl hd

theorem Sound.resolve (h : senders.Sound) : (senders.resolve id payload).2.Sound where
  aged := fun x hx => by
    rw [resolve_nextId]
    exact h.aged x (unresolved_resolve.mp hx).1
  deliveredAged := fun entry he => by
    rw [resolve_nextId]
    rcases mem_delivered_resolve.mp he with hold | ⟨rfl, hl⟩
    · exact h.deliveredAged entry hold
    · exact h.aged id hl.unresolved
  apart := fun entry he hun => by
    obtain ⟨hun, hne⟩ := unresolved_resolve.mp hun
    rcases mem_delivered_resolve.mp he with hold | ⟨rfl, -⟩
    · exact h.apart entry hold hun
    · exact hne rfl

theorem Sound.alloc (h : senders.Sound) : senders.alloc.2.Sound where
  aged := fun x hx => by
    rcases unresolved_alloc.mp hx with rfl | hold
    · exact Int.lt_succ _
    · exact Int.lt_trans (h.aged x hold) (Int.lt_succ _)
  deliveredAged := fun entry he => Int.lt_trans (h.deliveredAged entry he) (Int.lt_succ _)
  apart := fun entry he hun => by
    rcases unresolved_alloc.mp hun with hf | hold
    · exact Int.lt_irrefl _ (hf ▸ h.deliveredAged entry he)
    · exact h.apart entry he hold

theorem Sound.dropReceiver (h : senders.Sound) : (senders.dropReceiver id).Sound where
  aged := fun x hx => h.aged x (unresolved_dropReceiver hx)
  deliveredAged := h.deliveredAged
  apart := fun entry he hun => h.apart entry he (unresolved_dropReceiver hun)

end Unresolved

end Senders

end OxPhp.Async
