import Mathlib.Data.List.Perm.Basic
import OxPhp.Async.FiberAwait

/-!
# Waiting for several promises

`await_race_dispatch_callback` and `await_any_dispatch_callback` of `php/sapi.rs`
as a whole: outside a fiber they take every receiver and block the thread, inside
one they poll.
-/

namespace OxPhp.Async

open ByteStr Effect

/-! ## Vectors -/

def swapRemove {α : Type} (l : List α) (i : Nat) : List α :=
  match l.getLast? with
  | none => []
  | some last => (l.set i last).dropLast

open scoped List in
theorem swapRemove_perm {α : Type} {l : List α} {i : Nat} {a : α} (ha : l[i]? = some a) :
    a :: swapRemove l i ~ l := by
  obtain ⟨hi, rfl⟩ := List.getElem?_eq_some_iff.mp ha
  rcases List.eq_nil_or_concat' l with rfl | ⟨init, last, rfl⟩
  · cases hi
  · have hs : swapRemove (init ++ [last]) i = ((init ++ [last]).set i last).dropLast := by
      simp [swapRemove]
    rw [hs]
    by_cases hlast : i < init.length
    · rw [List.set_append_left _ _ hlast, List.dropLast_concat, List.getElem_append_left hlast]
      calc init[i] :: init.set i last
        _ ~ init[i] :: last :: init.eraseIdx i := (List.set_perm_cons_eraseIdx hlast last).cons _
        _ ~ last :: init[i] :: init.eraseIdx i := List.Perm.swap ..
        _ ~ last :: init := (List.getElem_cons_eraseIdx_perm hlast).cons _
        _ ~ init ++ [last] := (List.perm_append_singleton last init).symm
    · obtain rfl : i = init.length := by
        rw [List.length_append, List.length_singleton] at hi
        omega
      rw [List.set_append_right _ _ le_rfl, Nat.sub_self, List.set_cons_zero,
        List.dropLast_concat, List.getElem_concat_length rfl]
      exact (List.perm_append_singleton last init).symm

/-- Take entries out at some indices, one after the other: those taken and those left. -/
def pick {α : Type} : List Nat → List α → Option (List α × List α)
  | [], l => some ([], l)
  | i :: indices, l => do
    let a ← l[i]?
    let (out, left) ← pick indices (swapRemove l i)
    return (a :: out, left)

section Pick

variable {α : Type} {indices : List Nat} {l out left : List α}

theorem pick_perm (h : pick indices l = some (out, left)) : (out ++ left).Perm l := by
  induction indices generalizing l out with
  | nil =>
    cases h
    exact .refl _
  | cons i indices ih =>
    simp only [pick, Option.bind_eq_bind, Option.bind_eq_some_iff] at h
    obtain ⟨a, ha, ⟨rest, left'⟩, hrest, heq⟩ := h
    cases heq
    exact ((ih hrest).cons a).trans (swapRemove_perm ha)

end Pick

/-! ## Waiting outside a fiber -/

def rejects : Channel → Bool
  | .sent result => !result.success
  | .closed => true
  | .empty => false

/-- What the callbacks have taken out of the tables: ids with their receivers, in
vectors of the same order. -/
structure Waiter (ρ : Type) where
  clock : Nat
  pending : List (Nat × ρ)
  collected : List AggregateRejection

structure Found where
  index : Nat
  id : Nat
  answer : Channel

inductive Ended where
  | settled (found : Found)
  | allRejected
  | timeout

abbrev WaitM (ρ : Type) := EStateM Ended (Waiter ρ)

/-- What a callback leaves behind: its return code and what goes with it, the
tables, and the tasks whose cancel flag it has set. -/
structure Outcome (ρ κ : Type) where
  answer : Answer
  tables : PromiseTables ρ κ
  cancelled : List ρ
  clock : Nat

section Callbacks

variable {ρ κ : Type} (w : Surroundings ρ κ)

/-- Nothing was ready: the deadline is looked at after the receivers. -/
def park : WaitM ρ Unit := do
  let s ← get
  if w.deadlinePassed s.clock then throw .timeout
  set { s with clock := s.clock + 1 }

variable (current : FiberId)

end Callbacks

/-! ## What a timeout leaves behind -/

section Tables

open PromiseTables

variable {ρ κ : Type} {w : Surroundings ρ κ} {current : FiberId}
  {tables tables' : PromiseTables ρ κ}

/-- The tables hold the same of every promise that can be awaited. -/
def SameAwaitable (tables tables' : PromiseTables ρ κ) : Prop :=
  tables'.promiseMap = tables.promiseMap ∧ tables'.readyResults = tables.readyResults

/-- What the callbacks have in hand after they have taken all receivers. -/
structure Taken (ids : List Nat) (tables : PromiseTables ρ κ) (taken : List (Nat × ρ))
    (tables' : PromiseTables ρ κ) : Prop where
  order : taken.map (·.1) = ids
  receivers : ∀ e ∈ taken, tables.promiseMap.lookup e.1 = some e.2
  ready : tables'.readyResults = tables.readyResults
  gone : ∀ id ∈ ids, id ∉ tables'.promiseMap

variable {ids : List Nat} {taken : List (Nat × ρ)}

theorem Taken.not_known {left : PromiseTables ρ κ}
    {id : Nat} (h : Taken ids tables taken tables') (hs : SameAwaitable tables' left)
    (ha : tables.Apart) (hid : id ∈ ids) : ¬left.Known id := by
  rintro (hmap | hr)
  · rw [hs.1] at hmap
    exact h.gone id hid hmap
  · rw [hs.2, h.ready] at hr
    rw [← h.order] at hid
    obtain ⟨e, he, rfl⟩ := List.mem_map.mp hid
    refine ha e.1 hr (AList.lookup_isSome.mp ?_)
    rw [h.receivers e he]
    rfl

end Tables

/-! ### Outside a fiber -/

section Blocking

variable {ρ κ : Type} {w : Surroundings ρ κ} {taken : List (Nat × ρ)} {s : Waiter ρ}

/-- The rejections collected so far are of the promises that have been taken out. -/
def Waiting (w : Surroundings ρ κ) (taken : List (Nat × ρ)) (s : Waiter ρ) : Prop :=
  ∃ indices out, pick indices taken = some (out, s.pending) ∧
    out.map (·.1) = s.collected.map (·.promiseId) ∧
    ∀ e ∈ out, ∃ t ≤ s.clock, rejects (w.recv t e.2) = true

theorem Waiting.start (clock : Nat) : Waiting w taken ⟨clock, taken, []⟩ :=
  ⟨[], [], rfl, rfl, nofun⟩

theorem Waiting.parts (h : Waiting w taken s) :
    (s.pending.map (·.1) ++ s.collected.map (·.promiseId)).Perm (taken.map (·.1)) := by
  obtain ⟨indices, out, hpick, hids, -⟩ := h
  rw [← hids, ← List.map_append]
  exact (List.perm_append_comm.trans (pick_perm hpick)).map _

theorem Waiting.kept (h : Waiting w taken s) : ∀ e ∈ s.pending, e ∈ taken := by
  obtain ⟨indices, out, hpick, -⟩ := h
  exact fun e he => (pick_perm hpick).subset (List.mem_append_right _ he)

theorem Waiting.settled (h : Waiting w taken s) : ∀ r ∈ s.collected,
    ∃ rx, (r.promiseId, rx) ∈ taken ∧ ∃ t ≤ s.clock, w.recv t rx ≠ .empty := by
  obtain ⟨indices, out, hpick, hids, hrejects⟩ := h
  intro r hr
  have hmem : r.promiseId ∈ out.map (·.1) := hids ▸ List.mem_map_of_mem hr
  obtain ⟨e, he, heq⟩ := List.mem_map.mp hmem
  obtain ⟨t, ht, hre⟩ := hrejects e he
  refine ⟨e.2, heq ▸ (pick_perm hpick).subset (List.mem_append_left _ he), t, ht, fun hempty => ?_⟩
  rw [hempty] at hre
  cases hre

theorem Waiting.later (h : Waiting w taken s) (clock : Nat) (hc : s.clock ≤ clock) :
    Waiting w taken { s with clock } := by
  obtain ⟨indices, out, hpick, hids, hrejects⟩ := h
  refine ⟨indices, out, hpick, hids, fun e he => ?_⟩
  obtain ⟨t, ht, hre⟩ := hrejects e he
  exact ⟨t, ht.trans hc, hre⟩

end Blocking

section Blocking

open PromiseTables

variable {ρ κ : Type} {w : Surroundings ρ κ} {current : FiberId} {handle : Bool} {ids : List Nat}
  {turns : Nat} {tables : PromiseTables ρ κ} {out : Outcome ρ κ}
  {rejections : List AggregateRejection} {pending : List Nat}

end Blocking

/-! ### Inside a fiber -/

section Fiber

open PromiseTables

variable {ρ κ : Type} {w : Surroundings ρ κ} {current : FiberId} {handle : Bool} {ids : List Nat}
  {turns : Nat} {tables : PromiseTables ρ κ}

variable {answer : Answer} {id : Nat} {s : Poller ρ κ}

end Fiber

end OxPhp.Async
