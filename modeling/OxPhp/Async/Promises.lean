import Mathlib.Data.Finset.Basic
import Mathlib.Data.List.AList
import OxPhp.Lib.ByteStr
import OxPhp.Lib.Runs

/-!
# The promises of a thread

The thread-local tables of `php/sapi.rs` behind `oxphp_async()`: receivers for the
answers of tasks and cleanup records for what tasks hold of the request, under the
same ids in different tables.
-/

namespace OxPhp.Async

open ByteStr

abbrev FiberId := Nat

/-- The answer of a task. -/
structure AsyncResult where
  success : Bool
  serializedValue : Option Bytes
  exceptionClass : Option Bytes
  exceptionMessage : Option Bytes
  deriving DecidableEq

inductive Channel where
  | empty
  | sent (result : AsyncResult)
  | closed
  deriving DecidableEq

def asyncException : Bytes := str "OxPHP\\Async\\AsyncException"

def closedUnexpectedly : AsyncResult :=
  ⟨false, none, some asyncException, some (str "promise channel closed unexpectedly")⟩

/-- A promise of a fiber that has ended, still waiting for its task.  Without a
deadline it waits however long the task takes. -/
structure DeferredDrain (ρ κ : Type) where
  id : Nat
  owner : FiberId
  rx : ρ
  cleanup : Option κ
  deadline : Bool

/-- Receivers are of type `ρ`, cleanup records of type `κ`. -/
structure PromiseTables (ρ κ : Type) where
  promiseMap : AList fun _ : Nat => ρ
  promiseOwner : AList fun _ : Nat => FiberId
  promiseCounter : Nat
  promiseCleanup : AList fun _ : Nat => κ
  promiseStranded : AList fun _ : Nat => ρ
  deferredDrain : List (DeferredDrain ρ κ)
  readyResults : AList fun _ : Nat => AsyncResult

namespace PromiseTables

variable {ρ κ : Type} (tables : PromiseTables ρ κ)

def empty : PromiseTables ρ κ := ⟨∅, ∅, 0, ∅, ∅, [], ∅⟩

/-- The counter has 64 bits and wraps. -/
def nextPromiseId : Nat × PromiseTables ρ κ :=
  (tables.promiseCounter, { tables with promiseCounter := (tables.promiseCounter + 1) % 2 ^ 64 })

def claimOwner (current : FiberId) (id : Nat) : PromiseTables ρ κ :=
  if id ∈ tables.promiseOwner then tables
  else { tables with promiseOwner := tables.promiseOwner.insert id current }

def storePromise (current : FiberId) (id : Nat) (rx : ρ) : PromiseTables ρ κ :=
  let tables := tables.claimOwner current id
  { tables with promiseMap := tables.promiseMap.insert id rx }

def takePromise (id : Nat) : Option ρ × PromiseTables ρ κ :=
  (tables.promiseMap.lookup id, { tables with promiseMap := tables.promiseMap.erase id })

def storePromiseCleanup (current : FiberId) (id : Nat) (cleanup : κ) : PromiseTables ρ κ :=
  let tables := tables.claimOwner current id
  { tables with promiseCleanup := tables.promiseCleanup.insert id cleanup }

def takePromiseCleanup (id : Nat) : Option κ × PromiseTables ρ κ :=
  (tables.promiseCleanup.lookup id,
    { tables with promiseCleanup := tables.promiseCleanup.erase id })

def stashStranded (current : FiberId) (id : Nat) (rx : ρ) : PromiseTables ρ κ :=
  let tables := tables.claimOwner current id
  { tables with promiseStranded := tables.promiseStranded.insert id rx }

def isReady (id : Nat) : Bool := (tables.readyResults.lookup id).isSome

/-- `await_is_ready`: look for the answer and, where there is one, fetch it.
`recv` is what the receivers find. -/
def awaitIsReady (recv : ρ → Channel) (id : Nat) : Bool × PromiseTables ρ κ :=
  if tables.isReady id then (true, tables)
  else
    match tables.promiseMap.lookup id with
    | none => (false, tables)
    | some rx =>
      match recv rx with
      | .sent result =>
        (true,
          { tables with
            promiseMap := tables.promiseMap.erase id
            readyResults := tables.readyResults.insert id result })
      -- put back where it was
      | .empty => (false, tables)
      | .closed =>
        (true,
          { tables with
            promiseMap := tables.promiseMap.erase id
            readyResults := tables.readyResults.insert id closedUnexpectedly })

def takeReadyResult (id : Nat) : Option AsyncResult × PromiseTables ρ κ :=
  (tables.readyResults.lookup id, { tables with readyResults := tables.readyResults.erase id })

/-- The tables' part of `cleanup_promise`: what is to be released. -/
def cleanupPromise (id : Nat) : Option κ × PromiseTables ρ κ :=
  let tables := { tables with promiseOwner := tables.promiseOwner.erase id }
  tables.takePromiseCleanup id

/-! ## What is written besides the owner -/

theorem claimOwner_eq (current : FiberId) (id : Nat) :
    ∃ owners, tables.claimOwner current id = { tables with promiseOwner := owners } := by
  unfold claimOwner
  split
  · exact ⟨tables.promiseOwner, rfl⟩
  · exact ⟨_, rfl⟩

theorem storePromise_eq (current : FiberId) (id : Nat) (rx : ρ) :
    ∃ owners, tables.storePromise current id rx =
      { tables with promiseOwner := owners, promiseMap := tables.promiseMap.insert id rx } := by
  obtain ⟨owners, ho⟩ := tables.claimOwner_eq current id
  exact ⟨owners, by rw [storePromise, ho]⟩

theorem storePromiseCleanup_eq (current : FiberId) (id : Nat) (cleanup : κ) :
    ∃ owners, tables.storePromiseCleanup current id cleanup = { tables with
        promiseOwner := owners
        promiseCleanup := tables.promiseCleanup.insert id cleanup } := by
  obtain ⟨owners, ho⟩ := tables.claimOwner_eq current id
  exact ⟨owners, by rw [storePromiseCleanup, ho]⟩

theorem stashStranded_eq (current : FiberId) (id : Nat) (rx : ρ) :
    ∃ owners, tables.stashStranded current id rx = { tables with
        promiseOwner := owners
        promiseStranded := tables.promiseStranded.insert id rx } := by
  obtain ⟨owners, ho⟩ := tables.claimOwner_eq current id
  exact ⟨owners, by rw [stashStranded, ho]⟩

/-! ## What a poll finds -/

/-- The promise can still be awaited. -/
def Known (id : Nat) : Prop := id ∈ tables.promiseMap ∨ id ∈ tables.readyResults

instance (id : Nat) : Decidable (tables.Known id) := inferInstanceAs (Decidable (_ ∨ _))

/-- A result that has been fetched has no receiver left. -/
def Apart : Prop := ∀ id ∈ tables.readyResults, id ∉ tables.promiseMap

variable {tables} {recv : ρ → Channel} {id : Nat}

def Unready (tables : PromiseTables ρ κ) (recv : ρ → Channel) (id : Nat) : Prop :=
  tables.readyResults.lookup id = none ∧
    ∀ rx, tables.promiseMap.lookup id = some rx → recv rx = .empty

/-- The answer is there: fetched before, or found by the receiver. -/
def Answered (tables : PromiseTables ρ κ) (recv : ρ → Channel) (id : Nat) (result : AsyncResult) :
    Prop :=
  tables.readyResults.lookup id = some result ∨
    tables.readyResults.lookup id = none ∧ ∃ rx, tables.promiseMap.lookup id = some rx ∧
      (recv rx = .sent result ∨ recv rx = .closed ∧ result = closedUnexpectedly)

def SameOf (tables tables' : PromiseTables ρ κ) (id : Nat) : Prop :=
  tables'.promiseMap.lookup id = tables.promiseMap.lookup id ∧
    tables'.readyResults.lookup id = tables.readyResults.lookup id

def SameBut (id : Nat) (tables tables' : PromiseTables ρ κ) : Prop :=
  ∀ other, other ≠ id → SameOf tables tables' other

theorem known_iff_lookup : tables.Known id ↔ (∃ rx, tables.promiseMap.lookup id = some rx) ∨
      ∃ result, tables.readyResults.lookup id = some result := by
  unfold Known
  rw [← AList.lookup_isSome, ← AList.lookup_isSome, Option.isSome_iff_exists,
    Option.isSome_iff_exists]

theorem SameOf.trans {tables₁ tables₂ tables₃ : PromiseTables ρ κ}
    (h : SameOf tables₁ tables₂ id) (h' : SameOf tables₂ tables₃ id) : SameOf tables₁ tables₃ id :=
  ⟨h'.1.trans h.1, h'.2.trans h.2⟩

theorem SameOf.unready {tables' : PromiseTables ρ κ} (h : SameOf tables tables' id)
    (hu : tables'.Unready recv id) : tables.Unready recv id := by
  obtain ⟨hmap, hr⟩ := h
  unfold Unready at hu
  rw [hmap, hr] at hu
  exact hu

theorem awaitIsReady_cases (tables : PromiseTables ρ κ) (recv : ρ → Channel) (id : Nat) :
    tables.Unready recv id ∧ tables.awaitIsReady recv id = (false, tables) ∨
      ∃ result tables', tables.Answered recv id result ∧
        tables.awaitIsReady recv id = (true, tables') ∧
        tables'.readyResults.lookup id = some result ∧ SameBut id tables tables' ∧
        (tables.Apart → tables'.promiseMap.lookup id = none) := by
  unfold awaitIsReady isReady
  cases hr : tables.readyResults.lookup id with
  | some result =>
    refine .inr ⟨result, tables, .inl hr, rfl, hr, fun _ _ => ⟨rfl, rfl⟩, fun ha => ?_⟩
    have hmem : id ∈ tables.readyResults := AList.lookup_isSome.mp (by rw [hr]; rfl)
    exact AList.lookup_eq_none.mpr (ha id hmem)
  | none =>
    have hf : ∀ result : AsyncResult,
        (tables.readyResults.insert id result).lookup id = some result ∧
          SameBut id tables
            { tables with
              promiseMap := tables.promiseMap.erase id
              readyResults := tables.readyResults.insert id result } ∧
          (tables.promiseMap.erase id).lookup id = none := by
      intro result
      refine ⟨AList.lookup_insert _, ?_, AList.lookup_erase _ _⟩
      intro other ho
      exact ⟨AList.lookup_erase_ne ho, AList.lookup_insert_ne ho⟩
    cases hrx : tables.promiseMap.lookup id with
    | none =>
      refine .inl ⟨⟨hr, fun rx h => ?_⟩, rfl⟩
      rw [hrx] at h
      cases h
    | some rx =>
      dsimp only [Option.isSome_none]
      rw [if_neg Bool.false_ne_true]
      cases hre : recv rx with
      | empty =>
        refine .inl ⟨⟨hr, fun rx' h => ?_⟩, rfl⟩
        rw [hrx] at h
        cases h
        exact hre
      | sent result =>
        obtain ⟨hl, hs, hg⟩ := hf result
        exact .inr ⟨result, _, .inr ⟨hr, rx, hrx, .inl hre⟩, rfl, hl, hs, fun _ => hg⟩
      | closed =>
        obtain ⟨hl, hs, hg⟩ := hf closedUnexpectedly
        exact .inr ⟨closedUnexpectedly, _, .inr ⟨hr, rx, hrx, .inr ⟨hre, rfl⟩⟩, rfl, hl,
          hs, fun _ => hg⟩

/-! ## The tables a thread reaches -/

/-- The tables, and the ids whose receivers a callback has in hand. -/
structure Desk (ρ κ : Type) where
  tables : PromiseTables ρ κ
  hand : Finset Nat

/-- One use of the tables, by any fiber of the thread. -/
inductive Use (ρ κ : Type) where
  | dispatch (current : FiberId) (rx : ρ) (cleanup : κ)
  | registerSyntheticReceiver (current : FiberId) (id : Nat) (rx : ρ)
  | takePromise (id : Nat)
  /-- Put a receiver back. -/
  | restore (current : FiberId) (id : Nat) (rx : ρ)
  | stashStranded (current : FiberId) (id : Nat) (rx : ρ)
  /-- The receiver has given its answer. -/
  | settle (id : Nat)
  | awaitIsReady (recv : ρ → Channel) (id : Nat)
  | takeReadyResult (id : Nat)
  | cleanupPromise (id : Nat)

namespace Desk

variable (s : Desk ρ κ)

def step : Use ρ κ → Desk ρ κ
  | .dispatch current rx cleanup =>
    let (id, tables) := s.tables.nextPromiseId
    ⟨(tables.storePromise current id rx).storePromiseCleanup current id cleanup, s.hand⟩
  | .registerSyntheticReceiver current id rx => ⟨s.tables.storePromise current id rx, s.hand⟩
  | .takePromise id =>
    ⟨(s.tables.takePromise id).2, if id ∈ s.tables.promiseMap then insert id s.hand else s.hand⟩
  | .restore current id rx => ⟨s.tables.storePromise current id rx, s.hand.erase id⟩
  | .stashStranded current id rx => ⟨s.tables.stashStranded current id rx, s.hand.erase id⟩
  | .settle id => ⟨s.tables, s.hand.erase id⟩
  | .awaitIsReady recv id => ⟨(s.tables.awaitIsReady recv id).2, s.hand⟩
  | .takeReadyResult id => ⟨(s.tables.takeReadyResult id).2, s.hand⟩
  | .cleanupPromise id => ⟨(s.tables.cleanupPromise id).2, s.hand⟩

/-- The promise is not over yet. -/
def InUse (id : Nat) : Prop := s.tables.Known id ∨ id ∈ s.hand

/-- No counter has come round to the id of a promise in use, and a callback puts
back only what it took. -/
def Proper (use : Use ρ κ) (s : Desk ρ κ) : Prop :=
  match use with
  | .dispatch _ _ _ => ¬s.InUse s.tables.promiseCounter
  | .registerSyntheticReceiver _ id _ => ¬s.InUse id
  | .restore _ id _ => id ∈ s.hand
  | _ => True

/-- A promise is in one place: its receiver in the map or in hand, or its result
fetched. -/
structure Kept : Prop where
  apart : s.tables.Apart
  hand : ∀ id ∈ s.hand, ¬s.tables.Known id

variable {s} {hand : Finset Nat}

/-- The map and the results are as they were. -/
theorem Kept.aside (h : Kept s) (hm : tables.promiseMap = s.tables.promiseMap)
    (hr : tables.readyResults = s.tables.readyResults) (hsub : hand ⊆ s.hand) :
    Kept ⟨tables, hand⟩ := by
  obtain ⟨ha, hh⟩ := h
  unfold Apart at ha
  unfold Known at hh
  rw [← hm, ← hr] at ha hh
  exact ⟨ha, fun id hid => hh id (hsub hid)⟩

theorem Kept.record {current : FiberId} {cleanup : κ} (h : Kept s) :
    Kept ⟨s.tables.storePromiseCleanup current id cleanup, s.hand⟩ := by
  obtain ⟨owners, ho⟩ := s.tables.storePromiseCleanup_eq current id cleanup
  exact h.aside (by rw [ho]) (by rw [ho]) subset_rfl

/-- A receiver is stored under an id that is nowhere else. -/
theorem Kept.store (h : Kept s) (current : FiberId) (rx : ρ) (hk : ¬s.tables.Known id)
    (hsub : hand ⊆ s.hand) (hid : id ∉ hand) :
    Kept ⟨s.tables.storePromise current id rx, hand⟩ := by
  obtain ⟨owners, ho⟩ := s.tables.storePromise_eq current id rx
  rw [ho]
  refine ⟨fun x hx hmap => ?_, fun x hx hn => ?_⟩
  · rcases (AList.mem_insert _).mp hmap with rfl | hmap
    · exact hk (.inr hx)
    · exact h.apart x hx hmap
  · rw [Known, AList.mem_insert, or_assoc] at hn
    rcases hn with rfl | hn
    · exact hid hx
    · exact h.hand x (hsub hx) hn

theorem Kept.take (h : Kept s) (id : Nat) : Kept (s.step (.takePromise id)) := by
  refine ⟨fun x hx hmap => h.apart x hx (AList.mem_erase.mp hmap).2, fun x hx hn => ?_⟩
  have hin : x ∈ s.hand ∨ x = id ∧ id ∈ s.tables.promiseMap := by
    dsimp only [step] at hx
    split at hx
    · next hmem => exact (Finset.mem_insert.mp hx).symm.imp_right fun heq => ⟨heq, hmem⟩
    · exact .inl hx
  rcases hin with hin | ⟨rfl, hmem⟩
  · exact h.hand x hin (hn.imp_left fun hmap => (AList.mem_erase.mp hmap).2)
  · rcases hn with hmap | hr
    · exact (AList.mem_erase.mp hmap).1 rfl
    · exact h.apart x hr hmem

/-- The answer is fetched: it takes the place of the receiver. -/
theorem Kept.fetch (h : Kept s) (hmem : id ∈ s.tables.promiseMap) (result : AsyncResult) :
    Kept ⟨{ s.tables with
      promiseMap := s.tables.promiseMap.erase id
      readyResults := s.tables.readyResults.insert id result }, s.hand⟩ := by
  refine ⟨fun x hx hmap => ?_, fun x hx hn => h.hand x hx ?_⟩
  · obtain ⟨hne, hmap⟩ := AList.mem_erase.mp hmap
    exact h.apart x (((AList.mem_insert _).mp hx).resolve_left hne) hmap
  · rcases hn with hmap | hr
    · exact .inl (AList.mem_erase.mp hmap).2
    · rcases (AList.mem_insert _).mp hr with rfl | hr
      · exact .inl hmem
      · exact .inr hr

theorem Kept.poll (h : Kept s) (recv : ρ → Channel) (id : Nat) :
    Kept (s.step (.awaitIsReady recv id)) := by
  dsimp only [step, awaitIsReady]
  split
  · exact h
  · cases hrx : s.tables.promiseMap.lookup id with
    | none => exact h
    | some rx =>
      have hmem : id ∈ s.tables.promiseMap := AList.lookup_isSome.mp (by rw [hrx]; rfl)
      dsimp only
      cases recv rx with
      | empty => exact h
      | sent result => exact h.fetch hmem result
      | closed => exact h.fetch hmem closedUnexpectedly

theorem Kept.step (h : Kept s) (use : Use ρ κ) (hp : Proper use s) : Kept (s.step use) := by
  cases use with
  | dispatch current rx cleanup =>
    have hs : Kept ⟨s.tables.nextPromiseId.2, s.hand⟩ := h.aside rfl rfl subset_rfl
    refine (hs.store current rx (fun hn => hp (.inl hn)) subset_rfl fun hn => ?_).record
    exact hp (.inr hn)
  | registerSyntheticReceiver current id rx =>
    exact h.store current rx (fun hn => hp (.inl hn)) subset_rfl fun hn => hp (.inr hn)
  | takePromise id => exact h.take id
  | restore current id rx =>
    exact h.store current rx (h.hand id hp) (s.hand.erase_subset id) (s.hand.notMem_erase id)
  | stashStranded current id rx =>
    obtain ⟨owners, ho⟩ := s.tables.stashStranded_eq current id rx
    exact h.aside (by rw [ho]) (by rw [ho]) (s.hand.erase_subset id)
  | settle id => exact h.aside rfl rfl (s.hand.erase_subset id)
  | awaitIsReady recv id => exact h.poll recv id
  | takeReadyResult id =>
    refine ⟨fun x hx => h.apart x (AList.mem_erase.mp hx).2, fun x hx hn => h.hand x hx ?_⟩
    exact hn.imp_right fun hr => (AList.mem_erase.mp hr).2
  | cleanupPromise id => exact h.aside rfl rfl subset_rfl

/-- **The tables a thread reaches are apart**: no result is kept beside a receiver
of the same promise. -/
theorem apart_of_run {uses : List (Use ρ κ)} (hp : Runs.Always step Proper uses ⟨.empty, ∅⟩) :
    (uses.foldl step ⟨.empty, ∅⟩).tables.Apart := by
  have h₀ : Kept (⟨.empty, ∅⟩ : Desk ρ κ) :=
    ⟨fun _ hr => absurd hr (AList.notMem_empty _), fun _ hid => absurd hid (Finset.notMem_empty _)⟩
  exact (Runs.foldl_invariant (fun s use h hok => h.step use hok) h₀ hp).apart

end Desk

end PromiseTables

end OxPhp.Async
