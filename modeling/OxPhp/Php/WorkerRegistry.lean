import Mathlib.Data.List.Basic

/-!
# The worker registry

One slot per worker thread: where its `EG(vm_interrupt)` can be raised, which
request it took last, and since when it has been busy.  With fiber multiplexing a
worker has several requests open, and `end_request` does not say which has ended.
-/

namespace OxPhp.Php

inductive CancelReason where
  | none
  | clientAbort
  | timeout
  | shutdown
  | stuck
  | userCancel
  deriving DecidableEq

namespace WorkerRegistry

/-- A `CancellationState`, by identity. -/
abbrev RequestId := Nat

/-- The address of a thread's `EG(vm_interrupt)`. -/
abbrev Addr := Nat

structure Slot where
  cancelState : Option RequestId
  interruptFlagPtr : Option Addr
  activeRequests : Nat
  requestStartUs : Nat
  tid : Nat
  deriving DecidableEq

namespace Slot

def new : Slot := ⟨none, none, 0, 0, 0⟩

def publish (s : Slot) (addr : Addr) : Slot := { s with interruptFlagPtr := some addr }

def retireInterrupt (s : Slot) : Slot := { s with interruptFlagPtr := none }

def clear (_ : Slot) : Slot := ⟨none, none, 0, 0, 0⟩

def beginRequest (s : Slot) (r : RequestId) (now tid : Nat) : Slot :=
  { s with
    cancelState := some r
    activeRequests := s.activeRequests + 1
    requestStartUs := now
    tid := if s.tid = 0 then tid else s.tid }

def endRequest (s : Slot) : Slot :=
  { s with cancelState := none, activeRequests := s.activeRequests - 1, requestStartUs := 0 }

end Slot

structure Registry where
  slots : List Slot
  reason : RequestId → CancelReason
  raised : List Addr

namespace Registry

def beginRequest (g : Registry) (w : Nat) (r : RequestId) (now tid : Nat) : Registry :=
  { g with slots := g.slots.modify w fun s => s.beginRequest r now tid }

def endRequest (g : Registry) (w : Nat) : Registry :=
  { g with slots := g.slots.modify w Slot.endRequest }

def kick (g : Registry) (s : Slot) : Registry :=
  { g with raised := g.raised ++ s.interruptFlagPtr.toList }

def cancelRequest (g : Registry) (r : RequestId) (reason : CancelReason) : Registry :=
  if g.reason r = .none then
    let g := { g with reason := Function.update g.reason r reason }
    match g.slots.find? fun s => s.cancelState == some r with
    | some s => g.kick s
    | none => g
  else g

end Registry

/-! ## Sequences of calls -/

/-- The calls of the workers.  The request an `end_request` is for is not an argument
of it. -/
inductive Call where
  | beginRequest (w : Nat) (r : RequestId) (now tid : Nat)
  | endRequest (w : Nat) (r : RequestId)
  deriving DecidableEq

def Registry.after (g : Registry) : Call → Registry
  | .beginRequest w r now tid => g.beginRequest w r now tid
  | .endRequest w _ => g.endRequest w

def published (addrs : List Addr) : Registry where
  slots := addrs.map Slot.new.publish
  reason _ := .none
  raised := []

def afterCalls (addrs : List Addr) (calls : List Call) : Registry :=
  calls.foldl Registry.after (published addrs)

/-- A request begins once, and ends on the worker it is open on. -/
def Call.Fits (past : List Call) : Call → Prop
  | .beginRequest _ r _ _ => ∀ w now tid, .beginRequest w r now tid ∉ past
  | .endRequest w r => (∃ now tid, .beginRequest w r now tid ∈ past) ∧ .endRequest w r ∉ past

def Fitting : List Call → List Call → Prop
  | _, [] => True
  | past, c :: calls => c.Fits past ∧ Fitting (past ++ [c]) calls

/-! ## One slot -/

/-- What a call does to the slot of worker `w`. -/
def Slot.after (w : Nat) (s : Slot) : Call → Slot
  | .beginRequest v r now tid => if v = w then s.beginRequest r now tid else s
  | .endRequest v _ => if v = w then s.endRequest else s

theorem getElem?_after (g : Registry) (c : Call) (w : Nat) :
    (g.after c).slots[w]? = g.slots[w]?.map fun s => s.after w c := by
  cases c with
  | beginRequest v r now tid =>
    simp only [Registry.after, Registry.beginRequest, List.getElem?_modify, Slot.after]
    by_cases hv : v = w <;> simp [hv]
  | endRequest v r =>
    simp only [Registry.after, Registry.endRequest, List.getElem?_modify, Slot.after]
    by_cases hv : v = w <;> simp [hv]

theorem getElem?_foldl_after (g : Registry) (calls : List Call) (w : Nat) :
    (calls.foldl Registry.after g).slots[w]? =
      g.slots[w]?.map fun s => calls.foldl (Slot.after w) s := by
  induction calls generalizing g with
  | nil => simp
  | cons c calls ih =>
    rw [List.foldl_cons, ih, getElem?_after, Option.map_map]
    rfl

theorem foldl_after_rest (g : Registry) (calls : List Call) :
    (calls.foldl Registry.after g).raised = g.raised ∧
      (calls.foldl Registry.after g).reason = g.reason := by
  induction calls generalizing g with
  | nil => exact ⟨rfl, rfl⟩
  | cons c calls ih =>
    rw [List.foldl_cons, (ih (g.after c)).1, (ih (g.after c)).2]
    cases c <;> exact ⟨rfl, rfl⟩

section OneSlot

variable {w : Nat} {s : Slot} {calls : List Call}

/-- Nothing is open on the worker, as far as its slot says. -/
def Slot.Idle (s : Slot) : Prop := s.cancelState = none ∧ s.requestStartUs = 0

theorem interruptFlagPtr_foldl (w : Nat) (s : Slot) (calls : List Call) :
    (calls.foldl (Slot.after w) s).interruptFlagPtr = s.interruptFlagPtr := by
  induction calls generalizing s with
  | nil => rfl
  | cons c calls ih =>
    rw [List.foldl_cons, ih]
    cases c with
    | beginRequest v r now tid | endRequest v r =>
      simp only [Slot.after]
      split <;> rfl

theorem begin_mem_of_cancelState {r : RequestId}
    (h : (calls.foldl (Slot.after w) s).cancelState = some r) :
    s.cancelState = some r ∨ ∃ now tid, .beginRequest w r now tid ∈ calls := by
  induction calls generalizing s with
  | nil => exact .inl h
  | cons c calls ih =>
    rcases ih h with hs | ⟨now, tid, hmem⟩
    · cases c with
      | beginRequest v r' now tid =>
        simp only [Slot.after] at hs
        split at hs
        · next hv =>
          cases hs
          exact .inr ⟨now, tid, hv ▸ List.mem_cons_self⟩
        · exact .inl hs
      | endRequest v r' =>
        simp only [Slot.after] at hs
        split at hs
        · cases hs
        · exact .inl hs
    · exact .inr ⟨now, tid, List.mem_cons_of_mem _ hmem⟩

theorem after_of_not_begin (s : Slot) {c : Call} (hb : ∀ r now tid, c ≠ .beginRequest w r now tid) :
    s.after w c = s ∨ (∃ r, c = .endRequest w r) ∧ s.after w c = s.endRequest := by
  cases c with
  | beginRequest v r now tid =>
    refine .inl (if_neg ?_)
    rintro rfl
    exact hb r now tid rfl
  | endRequest v r =>
    by_cases hv : v = w
    · subst hv
      exact .inr ⟨⟨r, rfl⟩, if_pos rfl⟩
    · exact .inl (if_neg hv)

theorem foldl_of_untouched (hb : ∀ r now tid, .beginRequest w r now tid ∉ calls)
    (hend : ∀ r, .endRequest w r ∉ calls) : calls.foldl (Slot.after w) s = s := by
  induction calls with
  | nil => rfl
  | cons c calls ih =>
    have hs : s.after w c = s := by
      rcases after_of_not_begin s fun r now tid hc =>
        hb r now tid (hc ▸ List.mem_cons_self) with hs | ⟨⟨r, rfl⟩, -⟩
      · exact hs
      · exact absurd List.mem_cons_self (hend r)
    rw [List.foldl_cons, hs]
    exact ih (fun r now tid hmem => hb r now tid (List.mem_cons_of_mem _ hmem))
      fun r hmem => hend r (List.mem_cons_of_mem _ hmem)

theorem idle_foldl (hb : ∀ r now tid, .beginRequest w r now tid ∉ calls)
    (h : s.Idle ∨ ∃ r, .endRequest w r ∈ calls) : (calls.foldl (Slot.after w) s).Idle := by
  induction calls generalizing s with
  | nil =>
    rcases h with h | ⟨r, hmem⟩
    · exact h
    · cases hmem
  | cons c calls ih =>
    refine ih (fun r now tid hmem => hb r now tid (List.mem_cons_of_mem _ hmem)) ?_
    rcases after_of_not_begin s fun r now tid hc =>
      hb r now tid (hc ▸ List.mem_cons_self) with hs | ⟨-, he⟩
    · rw [hs]
      rcases h with h | ⟨r, hmem⟩
      · exact .inl h
      · rcases List.mem_cons.mp hmem with rfl | hmem
        · refine .inl ?_
          rw [← hs, Slot.after, if_pos rfl]
          exact ⟨rfl, rfl⟩
        · exact .inr ⟨r, hmem⟩
    · rw [he]
      exact .inl ⟨rfl, rfl⟩

end OneSlot

/-! ## Cancelling the request a worker took last -/

variable {pre post : List Call} {w now tid v : Nat} {r : RequestId} {addrs : List Addr} {s : Slot}

theorem fits_of_fitting {past : List Call} {c : Call}
    (h : Fitting past (pre ++ c :: post)) : c.Fits (past ++ pre) := by
  induction pre generalizing past with
  | nil =>
    rw [List.append_nil]
    exact h.1
  | cons c' pre ih =>
    have := ih h.2
    rwa [List.append_assoc] at this

theorem begin_unique (h : Fitting [] (pre ++ .beginRequest w r now tid :: post)) {now' tid' : Nat}
    (hmem : .beginRequest v r now' tid' ∈ pre ++ .beginRequest w r now tid :: post) : v = w := by
  rcases List.mem_append.mp hmem with hpre | hmem
  · exact absurd hpre (fits_of_fitting h v now' tid')
  · rcases List.mem_cons.mp hmem with heq | hp
    · cases heq
      rfl
    · obtain ⟨a, b, rfl⟩ := List.append_of_mem hp
      rw [← List.cons_append, ← List.append_assoc] at h
      have hf := fits_of_fitting h w now tid
      exact absurd (List.mem_append_right _ List.mem_cons_self) hf

theorem slot_of_begun {addr : Addr} (ha : addrs[w]? = some addr)
    (pre post : List Call) (r : RequestId) (now tid : Nat) :
    ∃ s, (afterCalls addrs (pre ++ .beginRequest w r now tid :: post)).slots[w]? =
        some (post.foldl (Slot.after w) s) ∧
      s.cancelState = some r ∧ s.requestStartUs = now ∧ s.interruptFlagPtr = some addr := by
  refine ⟨(pre.foldl (Slot.after w) (Slot.new.publish addr)).beginRequest r now tid, ?_, rfl, rfl,
    ?_⟩
  · rw [afterCalls, getElem?_foldl_after, published, List.getElem?_map, ha]
    simp only [Option.map_some, List.foldl_append, List.foldl_cons, Slot.after, if_true]
  · exact interruptFlagPtr_foldl w _ pre

theorem eq_of_names (hf : Fitting [] (pre ++ .beginRequest w r now tid :: post))
    (hs : (afterCalls addrs (pre ++ .beginRequest w r now tid :: post)).slots[v]? = some s)
    (hn : s.cancelState = some r) : v = w := by
  rw [afterCalls, getElem?_foldl_after, published, List.getElem?_map, Option.map_map] at hs
  obtain ⟨addr, -, rfl⟩ := Option.map_eq_some_iff.mp hs
  rcases begin_mem_of_cancelState hn with hnew | ⟨now', tid', hmem⟩
  · cases hnew
  · exact begin_unique hf hmem

theorem raised_cancelRequest {g : Registry} (reason : CancelReason)
    (hfirst : g.reason r = .none) (hs : g.slots[w]? = some s) (hn : s.cancelState = some r)
    (hu : ∀ v s, g.slots[v]? = some s → s.cancelState = some r → v = w) :
    (g.cancelRequest r reason).raised = g.raised ++ s.interruptFlagPtr.toList := by
  have hf : g.slots.find? (fun s => s.cancelState == some r) = some s := by
    cases hfo : g.slots.find? (fun s => s.cancelState == some r) with
    | none =>
      have := List.find?_eq_none.mp hfo s (List.mem_of_getElem? hs)
      simp [hn] at this
    | some s' =>
      obtain ⟨v, hv⟩ := List.mem_iff_getElem?.mp (List.mem_of_find?_eq_some hfo)
      have hna : s'.cancelState = some r := by simpa using List.find?_some hfo
      rw [hu v s' hv hna, hs] at hv
      exact hv.symm
  rw [Registry.cancelRequest, if_pos hfirst]
  simp only [hf]
  rfl

/-- **A request can be interrupted.**  Where `r` is the request that worker `w` took last,
the first cancellation of `r` raises the interrupt of `w` and the worker counts as busy
exactly if no request of the worker has ended since, `r` or another, and the clock was past
its first microsecond when `r` began. -/
theorem cancel_reaches_last_begun_iff (addrs : List Addr) (pre post : List Call) (w : Nat)
    (r : RequestId) (now tid : Nat) (addr : Addr) (reason : CancelReason)
    (haddr : addrs[w]? = some addr)
    (hfitting : Fitting [] (pre ++ .beginRequest w r now tid :: post))
    (hlast : ∀ r now tid, .beginRequest w r now tid ∉ post) :
    (((afterCalls addrs (pre ++ .beginRequest w r now tid :: post)).cancelRequest r reason).raised =
          [addr] ∧
        ∃ s, (afterCalls addrs (pre ++ .beginRequest w r now tid :: post)).slots[w]? = some s ∧
          s.requestStartUs ≠ 0) ↔ (∀ r, .endRequest w r ∉ post) ∧ now ≠ 0 := by
  obtain ⟨s, hsl, hn, hs, hptr⟩ := slot_of_begun haddr pre post r now tid
  by_cases he : ∃ r, .endRequest w r ∈ post
  · -- the end has cleared the slot, whoever's it was
    have hid : (post.foldl (Slot.after w) s).Idle := idle_foldl hlast (.inr he)
    constructor
    · rintro ⟨-, s', hs', hb⟩
      cases hsl.symm.trans hs'
      exact absurd hid.2 hb
    · rintro ⟨hend, -⟩
      obtain ⟨r', hr'⟩ := he
      exact absurd hr' (hend r')
  · have hend := not_exists.mp he
    rw [foldl_of_untouched hlast hend] at hsl
    obtain ⟨hr, hre⟩ := foldl_after_rest (published addrs)
      (pre ++ .beginRequest w r now tid :: post)
    have hfirst : (afterCalls addrs (pre ++ .beginRequest w r now tid :: post)).reason r = .none :=
      congrFun hre r
    rw [raised_cancelRequest reason hfirst hsl hn fun v s => eq_of_names hfitting, hptr,
      afterCalls, hr]
    constructor
    · rintro ⟨-, s', hs', hb⟩
      cases hsl.symm.trans hs'
      exact ⟨hend, hs ▸ hb⟩
    · rintro ⟨-, hnow⟩
      exact ⟨rfl, s, hsl, hs ▸ hnow⟩

/-- One worker at address 64, a request that began at 5 and another, the last one, at 7. -/
def twoOpen : List Call := [.beginRequest 0 1 5 9, .beginRequest 0 2 7 9]

theorem cancel_reaches_last_begun_iff_twoOpen :
    ((afterCalls [64] twoOpen).cancelRequest 2 .clientAbort).raised = [64] ∧
      ∃ s, (afterCalls [64] twoOpen).slots[0]? = some s ∧ s.requestStartUs ≠ 0 := by
  refine (cancel_reaches_last_begun_iff [64] [.beginRequest 0 1 5 9] [] 0 2 7 9 64 .clientAbort rfl
    ?_ (fun _ _ _ => List.not_mem_nil)).mpr ⟨fun _ => List.not_mem_nil, by decide⟩
  refine ⟨fun _ _ _ => List.not_mem_nil, ?_, trivial⟩
  intro w now tid hmem
  cases List.mem_singleton.mp hmem

/-- The first of the two ends: the one that is left can no longer be interrupted, and its
worker counts as idle. -/
theorem other_end_clears_slot : Fitting [] (twoOpen ++ [Call.endRequest 0 1]) ∧
      ((afterCalls [64] (twoOpen ++ [Call.endRequest 0 1])).cancelRequest 2
        .clientAbort).raised = [] ∧
      (afterCalls [64] (twoOpen ++ [Call.endRequest 0 1])).slots = [⟨none, some 64, 1, 0, 9⟩] := by
  refine ⟨⟨fun _ _ _ => List.not_mem_nil, ?_, ?_, trivial⟩, rfl, rfl⟩
  · intro w now tid hmem
    cases List.mem_singleton.mp hmem
  · exact ⟨⟨5, 9, List.mem_cons_self⟩, by decide⟩

end WorkerRegistry

end OxPhp.Php
