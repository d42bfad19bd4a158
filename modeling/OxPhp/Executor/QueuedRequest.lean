import OxPhp.Lib.Runs
import OxPhp.Php.WorkerRegistry

/-!
# A queued request and its deadline

A request with a wait budget is watched by the dispatch task (`await_queued`) and
by the worker that takes it off the channel (`take_from_queue`).  Both may refuse
it, and `claim_from_queue`, one compare-and-swap, decides between them.
-/

namespace OxPhp.Executor.QueuedRequest

open OxPhp.Php (CancelReason)

inductive Side where
  | waiting
  | worker
  deriving DecidableEq

inductive Answer where
  | response
  | overloaded
  | clientClosed
  | clientClosedUnpicked
  /-- `refuse_script`. -/
  | scriptRefused
  | internalError
  /-- `500 PHP Worker Error`, when the sender is gone. -/
  | workerError
  deriving DecidableEq

inductive Oneshot where
  | empty
  | sent (a : Answer)
  | closed
  deriving DecidableEq

/-- Where `await_queued` is.  The two arms of its `select!` are polled in order. -/
inductive Waiting where
  | pollAnswer
  | pollTimer
  | claim
  /-- The claim was lost: `rx.await`. -/
  | awaitAnswer
  | readCell
  | countRefusal
  | refuse
  | returned (own : Option Answer)
  | dropped
  deriving DecidableEq

/-- Where the request is on the side of the pool. -/
inductive Worker where
  | queued
  | claim
  | readDeadline
  /-- Reads the cancel cell of a request whose deadline has passed. -/
  | readCellExpired
  | readCell
  | countRefusal
  | answer (a : Answer)
  /-- The second look at the cell, before the handler. -/
  | setup
  | openScript
  /-- The handler runs; `unsent` as long as the sender is in `EARLY_TX`. -/
  | running (unsent : Bool)
  | done
  /-- `Pickup::Abandoned`, or dropped with the channel. -/
  | abandoned
  /-- Dropped with the request in hand: a worker that ends or retires drops the requests it
  has not brought to their end, those still parked after `OXPHP_RETIRE_MAX_PASSES` passes. -/
  | lost
  deriving DecidableEq

inductive LoopMode where
  | traditional
  | workerMode
  deriving DecidableEq

structure State where
  deadline : Nat
  now : Nat
  reason : CancelReason
  /-- `claimed_from_queue`, with who set it. -/
  claimed : Option Side
  /-- `oxphp_admission_refused_total{reason="wait_timeout"}`, as far as this request goes. -/
  refusals : Nat
  channel : Oneshot
  waiting : Waiting
  worker : Worker
  /-- Every answer that has been made, oldest first. -/
  answers : List (Side × Answer)

def start (deadline : Nat) : State where
  deadline := deadline
  now := 0
  reason := .none
  claimed := none
  refusals := 0
  channel := .empty
  waiting := .pollAnswer
  worker := .queued
  answers := []

/-! ## The steps -/

/-- `CancellationState::set`: the first reason stays. -/
def State.cancel (s : State) (reason : CancelReason) : State :=
  if s.reason = .none then { s with reason } else s

def State.send (s : State) (a : Answer) (worker : Worker) : State :=
  { s with channel := .sent a, worker, answers := s.answers ++ [(.worker, a)] }

/-- The worker's side lets go of the request, and of the sender if it still has it. -/
def State.letGo (s : State) (worker : Worker) : State :=
  { s with channel := if s.channel = .empty then .closed else s.channel, worker }

def State.returnOwn (s : State) (a : Answer) : State :=
  { s with waiting := .returned (some a), answers := s.answers ++ [(.waiting, a)] }

/-- What the receiver finds, with `pending` for an empty channel. -/
def State.receive (s : State) (pending : Option State) : Option State :=
  match s.channel with
  | .empty => pending
  | .sent _ => some { s with waiting := .returned none }
  | .closed => some (s.returnOwn .workerError)

def awaitQueued (s : State) : Option State :=
  match s.waiting with
  | .pollAnswer => s.receive (some { s with waiting := .pollTimer })
  | .pollTimer =>
    some { s with waiting := if s.deadline ≤ s.now then .claim else .pollAnswer }
  | .claim =>
    match s.claimed with
    | none => some { s with claimed := some .waiting, waiting := .readCell }
    | some _ => some { s with waiting := .awaitAnswer }
  | .awaitAnswer => s.receive none
  | .readCell =>
    if s.reason = .clientAbort then some (s.returnOwn .clientClosed)
    else some { s with waiting := .countRefusal }
  | .countRefusal => some { s with refusals := s.refusals + 1, waiting := .refuse }
  | .refuse => some (s.returnOwn .overloaded)
  | .returned _ => none
  | .dropped => none

inductive Turn where
  | next
  /-- The script cannot be opened for execution. -/
  | refuseScript
  /-- The handler sends its answer early, by `oxphp_finish_request()` or a stream. -/
  | sendEarly
  | panic
  deriving DecidableEq

/-- The end of the handler: the answer is sent unless it has been. -/
def State.endHandler (s : State) (unsent : Bool) (a : Answer) : State :=
  { s with worker := if unsent then .answer a else .done }

/-- One step of a worker: `take_from_queue`, then what the loop does with its outcome. -/
def workerStep (mode : LoopMode) (turn : Turn) (s : State) : Option State :=
  match s.worker, turn with
  | .queued, .next => some { s with worker := .claim }
  | .claim, .next =>
    match s.claimed with
    | none => some { s with claimed := some .worker, worker := .readDeadline }
    | some _ => some (s.letGo .abandoned)
  | .readDeadline, .next =>
    some { s with worker := if s.deadline < s.now then .readCellExpired else .readCell }
  | .readCellExpired, .next =>
    some { s with
      worker := if s.reason = .clientAbort then .answer .clientClosedUnpicked else .countRefusal }
  | .countRefusal, .next =>
    some { s with refusals := s.refusals + 1, worker := .answer .overloaded }
  | .readCell, .next =>
    some { s with worker := if s.reason = .none then .setup else .answer .clientClosed }
  | .answer a, .next => some (s.send a .done)
  | .setup, .next =>
    match mode with
    | .traditional =>
      some { s with worker := if s.reason = .none then .openScript else .answer .clientClosed }
    | .workerMode =>
      -- the serve loop creates the fiber and enters the handler either way
      if s.reason = .none then some { s with worker := .running true }
      else some (s.send .clientClosed (.running false))
  | .openScript, .next => some { s with worker := .running true }
  | .openScript, .refuseScript => some { s with worker := .answer .scriptRefused }
  | .running true, .sendEarly => some (s.send .response (.running false))
  | .running unsent, .next => some (s.endHandler unsent .response)
  | .running unsent, .panic =>
    if mode = .traditional then some (s.endHandler unsent .internalError) else none
  | _, _ => none

inductive Move where
  | tick
  | waiting
  | worker (turn : Turn)
  | leave
  | dropWaiting
  | cancel (reason : CancelReason)
  | tearDown
  | lose
  deriving DecidableEq

/-- The worker has taken the request and its thread is still at it. -/
def Worker.inHand : Worker → Bool
  | .queued => false
  | .claim => false
  | .done => false
  | .abandoned => false
  | .lost => false
  | _ => true

def step (mode : LoopMode) (m : Move) (s : State) : Option State :=
  match m with
  | .tick => some { s with now := s.now + 1 }
  | .waiting => awaitQueued s
  | .worker turn => workerStep mode turn s
  | .leave => some (s.cancel .clientAbort)
  | .dropWaiting =>
    if s.waiting = .pollAnswer ∨ s.waiting = .awaitAnswer then
      some { s with waiting := .dropped }
    else none
  | .cancel reason => some (s.cancel reason)
  | .tearDown => if s.worker = .queued then some (s.letGo .abandoned) else none
  | .lose => if s.worker.inHand then some (s.letGo .lost) else none

abbrev run (mode : LoopMode) := Runs.run (step mode)

/-! ## What is known of a request -/

def Oneshot.answers : Oneshot → List (Side × Answer)
  | .sent a => [(.worker, a)]
  | _ => []

namespace Waiting

/-- The waiting side has won the claim, or answered on having won it. -/
def hasClaim : Waiting → Bool
  | .readCell => true
  | .countRefusal => true
  | .refuse => true
  | .returned (some a) => a != .workerError
  | _ => false

def answers : Waiting → List (Side × Answer)
  | .returned (some a) => [(.waiting, a)]
  | _ => []

def mayCount : Waiting → Bool
  | .readCell => true
  | .countRefusal => true
  | _ => false

/-- The steps to the answer, for a side that has the claim. -/
def left : Waiting → Nat
  | .readCell => 3
  | .countRefusal => 2
  | .refuse => 1
  | _ => 0

end Waiting

namespace Worker

def hasClaim : Worker → Bool
  | .queued => false
  | .claim => false
  | .abandoned => false
  | _ => true

def hasSender : Worker → Bool
  | .running unsent => unsent
  | .done => false
  | .abandoned => false
  | .lost => false
  | _ => true

def hasSent : Worker → Bool
  | .running unsent => !unsent
  | .done => true
  | _ => false

def mayCount : Worker → Bool
  | .readDeadline => true
  | .readCellExpired => true
  | .countRefusal => true
  | _ => false

def left : Worker → Nat
  | .readDeadline => 6
  | .readCell => 5
  | .setup => 4
  | .openScript => 3
  | .readCellExpired => 3
  | .countRefusal => 2
  | .running true => 2
  | .answer _ => 1
  | _ => 0

end Worker

namespace State

/-- Whoever holds the claim, or could still get it, may count a refusal. -/
def MayRefuse (s : State) : Prop :=
  match s.claimed with
  | none => True
  | some .waiting => s.waiting.mayCount = true
  | some .worker => s.worker.mayCount = true

def left (s : State) : Side → Nat
  | .waiting => s.waiting.left
  | .worker => s.worker.left

end State

structure Inv (s : State) : Prop where
  sender : s.channel = .empty ↔ s.worker.hasSender = true
  sent : s.worker.hasSent = true → s.channel ≠ .closed
  sentClaim : ∀ a, s.channel = .sent a → s.worker.hasClaim = true
  workerClaim : s.claimed = some .worker ↔ s.worker.hasClaim = true
  waitingClaim : s.claimed = some .waiting ↔ s.waiting.hasClaim = true
  workerError : s.waiting = .returned (some .workerError) → s.channel = .closed
  answers : s.answers = s.channel.answers ++ s.waiting.answers
  refusals : s.refusals ≤ 1
  refusals_eq : s.MayRefuse → s.refusals = 0

namespace Inv

variable {s : State}

theorem start (deadline : Nat) : Inv (start deadline) := by
  refine ⟨?_, ?_, ?_, ?_, ?_, ?_, ?_, ?_, ?_⟩ <;> simp [QueuedRequest.start, Worker.hasSender,
    Worker.hasSent, Worker.hasClaim, Waiting.hasClaim, Oneshot.answers, Waiting.answers]

theorem waiting_answers (h : Inv s) (hc : s.channel ≠ .closed)
    (hcl : s.claimed ≠ some .waiting) : s.waiting.answers = [] := by
  cases hw : s.waiting with
  | returned own =>
    cases own with
    | none => rfl
    | some a =>
      by_cases ha : a = .workerError
      · subst ha
        exact absurd (h.workerError hw) hc
      · refine absurd (h.waitingClaim.mpr ?_) hcl
        simp [hw, Waiting.hasClaim, ha]
  | _ => rfl

end Inv

/-! ## What the two sides write -/

/-- From one place of the waiting side to another, nothing else written. -/
def Waiting.Moves (w w' : Waiting) : Prop :=
  w'.hasClaim = w.hasClaim ∧ w'.answers = w.answers ∧ (w'.mayCount = true → w.mayCount = true) ∧
    (0 < w.left → w'.left < w.left) ∧ w' ≠ .returned (some .workerError)

instance (w w' : Waiting) : Decidable (w.Moves w') := by
  unfold Waiting.Moves
  infer_instance

def Worker.Moves (w w' : Worker) : Prop :=
  w'.hasSender = w.hasSender ∧ w'.hasClaim = w.hasClaim ∧ (w'.hasSent = true → w.hasSent = true) ∧
    (w'.mayCount = true → w.mayCount = true) ∧
    (w.hasClaim = true → w.hasSender = true → w'.left < w.left) ∧ w' ≠ .lost

instance (w w' : Worker) : Decidable (w.Moves w') := by
  unfold Worker.Moves
  infer_instance

inductive WaitingWrites (s : State) : State → Prop
  | moves (w : Waiting) (h : s.waiting.Moves w) : WaitingWrites s { s with waiting := w }
  | claims (place : s.waiting = .claim) (free : s.claimed = none) :
      WaitingWrites s { s with claimed := some .waiting, waiting := .readCell }
  | counts (place : s.waiting = .countRefusal) :
      WaitingWrites s { s with refusals := s.refusals + 1, waiting := .refuse }
  | returns (a : Answer) (claim : (a != .workerError) = s.waiting.hasClaim)
      (unanswered : s.waiting.answers = []) (closed : a = .workerError → s.channel = .closed) :
      WaitingWrites s (s.returnOwn a)

inductive WorkerWrites (s : State) : State → Prop
  | moves (w : Worker) (h : s.worker.Moves w) : WorkerWrites s { s with worker := w }
  | claims (place : s.worker = .claim) (free : s.claimed = none) :
      WorkerWrites s { s with claimed := some .worker, worker := .readDeadline }
  | abandons (place : s.worker = .claim) : WorkerWrites s (s.letGo .abandoned)
  | counts (place : s.worker = .countRefusal) :
      WorkerWrites s { s with refusals := s.refusals + 1, worker := .answer .overloaded }
  | sends (a : Answer) (w : Worker) (claim : s.worker.hasClaim = true)
      (sender : s.worker.hasSender = true) (sent : w.hasSent = true) : WorkerWrites s (s.send a w)

section Writes

variable {mode : LoopMode} {turn : Turn} {s s' : State}

theorem receive_writes {pending : Option State}
    (hw : s.waiting = .pollAnswer ∨ s.waiting = .awaitAnswer)
    (hp : ∀ s', pending = some s' → WaitingWrites s s')
    (hr : s.receive pending = some s') : WaitingWrites s s' := by
  rw [State.receive] at hr
  split at hr
  · exact hp s' hr
  · cases hr
    exact .moves _ (by rcases hw with hw | hw <;> rw [hw] <;> decide)
  · next hc =>
    cases hr
    refine .returns _ ?_ ?_ fun _ => hc
    all_goals rcases hw with hw | hw <;> rw [hw] <;> rfl

theorem awaitQueued_writes (h : awaitQueued s = some s') : WaitingWrites s s' := by
  rw [awaitQueued] at h
  split at h
  · next hw =>
    refine receive_writes (.inl hw) ?_ h
    rintro _ ⟨⟩
    exact .moves _ (by rw [hw]; decide)
  · next hw =>
    cases h
    exact .moves _ (by rw [hw]; split <;> decide)
  · next hw =>
    split at h
    · next hf =>
      cases h
      exact .claims hw hf
    · cases h
      exact .moves _ (by rw [hw]; decide)
  · next hw => exact receive_writes (.inr hw) (fun _ hn => by cases hn) h
  · next hw =>
    split at h
    · cases h
      refine .returns _ ?_ ?_ fun he => by cases he
      all_goals
        rw [hw]
        rfl
    · cases h
      exact .moves _ (by rw [hw]; decide)
  · next hw =>
    cases h
    exact .counts hw
  · next hw =>
    cases h
    refine .returns _ ?_ ?_ fun he => by cases he
    all_goals
      rw [hw]
      rfl
  · cases h
  · cases h

theorem endHandler_writes {unsent : Bool} (hworker : s.worker = .running unsent) {a : Answer}
    (hm : (Worker.running true).Moves (.answer a)) : WorkerWrites s (s.endHandler unsent a) := by
  refine .moves _ ?_
  rw [hworker]
  cases unsent with
  | false => exact (by decide : (Worker.running false).Moves .done)
  | true => exact hm

theorem workerStep_writes (h : workerStep mode turn s = some s') : WorkerWrites s s' := by
  rw [workerStep.eq_def] at h
  split at h
  · next hworker =>
    cases h
    exact .moves _ (by rw [hworker]; decide)
  · next hworker =>
    split at h
    · next hf =>
      cases h
      exact .claims hworker hf
    · cases h
      exact .abandons hworker
  · next hworker =>
    cases h
    exact .moves _ (by rw [hworker]; split <;> decide)
  · next hworker =>
    cases h
    exact .moves _ (by rw [hworker]; split <;> decide)
  · next hworker =>
    cases h
    exact .counts hworker
  · next hworker =>
    cases h
    exact .moves _ (by rw [hworker]; split <;> decide)
  · next hworker =>
    cases h
    exact .sends _ _ (by rw [hworker]; rfl) (by rw [hworker]; rfl) rfl
  · next hworker =>
    split at h
    · cases h
      exact .moves _ (by rw [hworker]; split <;> decide)
    · split at h
      · cases h
        exact .moves _ (by rw [hworker]; decide)
      · cases h
        exact .sends _ _ (by rw [hworker]; rfl) (by rw [hworker]; rfl) rfl
  · next hworker =>
    cases h
    exact .moves _ (by rw [hworker]; decide)
  · next hworker =>
    cases h
    exact .moves _ (by rw [hworker]; decide)
  · next hworker =>
    cases h
    exact .sends _ _ (by rw [hworker]; rfl) (by rw [hworker]; rfl) rfl
  · next hworker =>
    cases h
    exact endHandler_writes hworker (by decide)
  · next hworker =>
    obtain ⟨-, hs'⟩ := Option.ite_none_right_eq_some.mp h
    cases hs'
    exact endHandler_writes hworker (by decide)
  · cases h

end Writes

/-! ## Every step keeps what is known -/

namespace Inv

variable {s s' : State}

theorem refusals_eq_of (h : Inv s) (hc : s'.claimed = s.claimed) (hr : s'.refusals = s.refusals)
    (hw : s'.waiting.mayCount = true → s.waiting.mayCount = true)
    (hworker : s'.worker.mayCount = true → s.worker.mayCount = true) (hmay : s'.MayRefuse) :
    s'.refusals = 0 := by
  rw [hr]
  refine h.refusals_eq ?_
  revert hmay
  simp only [State.MayRefuse, hc]
  split
  · exact id
  · exact hw
  · exact hworker

theorem returnOwn (h : Inv s) {a : Answer} (hc : (a != .workerError) = s.waiting.hasClaim)
    (ha : s.waiting.answers = []) (hcl : a = .workerError → s.channel = .closed) :
    Inv (s.returnOwn a) := by
  refine { h with waitingClaim := ?_, workerError := ?_, answers := ?_, refusals_eq := ?_ }
  · exact h.waitingClaim.trans (by rw [← hc]; rfl)
  · intro hw
    cases hw
    exact hcl rfl
  · change s.answers ++ _ = s.channel.answers ++ [(Side.waiting, a)]
    rw [h.answers, ha, List.append_nil]
  · exact h.refusals_eq_of rfl rfl (fun hmay => by cases hmay) id

theorem waitingWrites (h : Inv s) (hwr : WaitingWrites s s') : Inv s' := by
  cases hwr with
  | moves w hm =>
    obtain ⟨hc, ha, hco, -, he⟩ := hm
    refine { h with waitingClaim := ?_, workerError := ?_, answers := ?_, refusals_eq := ?_ }
    · rw [hc]
      exact h.waitingClaim
    · exact fun hw => absurd hw he
    · rw [ha]
      exact h.answers
    · exact h.refusals_eq_of rfl rfl hco id
  | claims hwa hf =>
    refine { h with
      workerClaim := ?_, waitingClaim := ?_, workerError := (fun hw => by cases hw),
      answers := ?_, refusals_eq := ?_ }
    · have hworker := h.workerClaim
      simp_all
    · simp [Waiting.hasClaim]
    · rw [h.answers, hwa]
      rfl
    · exact fun _ => h.refusals_eq (by rw [State.MayRefuse, hf]; trivial)
  | counts hwa =>
    have hcl : s.claimed = some .waiting := h.waitingClaim.mpr (by rw [hwa]; rfl)
    have hz : s.refusals = 0 := h.refusals_eq (by rw [State.MayRefuse, hcl, hwa]; rfl)
    refine { h with
      waitingClaim := ?_, workerError := (fun hw => by cases hw), answers := ?_, refusals := ?_,
      refusals_eq := ?_ }
    · exact h.waitingClaim.trans (by rw [hwa]; rfl)
    · rw [h.answers, hwa]
      rfl
    · exact Nat.succ_le_succ (Nat.le_of_eq hz)
    · simp [State.MayRefuse, hcl, Waiting.mayCount]
  | returns a hc ha hclo => exact h.returnOwn hc ha hclo

theorem send (h : Inv s) (a : Answer) {w : Worker} (hs : s.worker.hasSender = true)
    (hc : s.worker.hasClaim = true) (hw : w.hasSent = true) : Inv (s.send a w) := by
  have he : s.channel = .empty := h.sender.mpr hs
  have hcl : s.claimed = some .worker := h.workerClaim.mpr hc
  have hn : s.waiting.answers = [] :=
    h.waiting_answers (by rw [he]; decide) (by rw [hcl]; decide)
  obtain ⟨hws, hwc, hwco⟩ :
      w.hasSender = false ∧ w.hasClaim = true ∧ w.mayCount = false := by
    cases w <;> simp_all [Worker.hasSent, Worker.hasSender, Worker.hasClaim, Worker.mayCount]
  refine { h with
    sender := ?_, sent := (fun _ hse => by cases hse), sentClaim := fun _ _ => hwc,
    workerClaim := ?_, workerError := ?_, answers := ?_, refusals_eq := ?_ }
  · simp [State.send, hws]
  · exact ⟨fun _ => hwc, fun _ => hcl⟩
  · intro her
    rw [h.workerError her] at he
    cases he
  · change s.answers ++ _ = [(Side.worker, a)] ++ s.waiting.answers
    rw [h.answers, he, hn]
    rfl
  · simp [State.MayRefuse, State.send, hcl, hwco]

theorem letGo (h : Inv s) {w : Worker} (hs : w.hasSender = false) (hse : w.hasSent = false)
    (hc : w.hasClaim = s.worker.hasClaim) (hco : w.mayCount = false) : Inv (s.letGo w) := by
  have hch : (s.letGo w).channel.answers = s.channel.answers := by
    simp only [State.letGo]
    split
    · next he => rw [he]; rfl
    · rfl
  refine { h with
    sender := ?_, sent := ?_, sentClaim := ?_, workerClaim := ?_, workerError := ?_,
    answers := ?_, refusals_eq := ?_ }
  · simp only [State.letGo, hs]
    split <;> simp_all
  · simp [State.letGo, hse]
  · intro a ha
    change w.hasClaim = true
    rw [hc]
    refine h.sentClaim a ?_
    simp only [State.letGo] at ha
    split at ha
    · cases ha
    · exact ha
  · change s.claimed = some .worker ↔ w.hasClaim = true
    rw [hc]
    exact h.workerClaim
  · intro her
    have hcl := h.workerError her
    simp [State.letGo, hcl]
  · rw [hch]
    exact h.answers
  · refine h.refusals_eq_of rfl rfl id fun hmay => ?_
    exact absurd hmay (by simp [State.letGo, hco])

theorem workerWrites (h : Inv s) (hwr : WorkerWrites s s') : Inv s' := by
  cases hwr with
  | moves w hm =>
    obtain ⟨hs, hc, hse, hco, -, -⟩ := hm
    refine { h with
      sender := ?_, sent := ?_, sentClaim := ?_, workerClaim := ?_, refusals_eq := ?_ }
    · rw [hs]
      exact h.sender
    · exact fun hw => h.sent (hse hw)
    · intro a ha
      rw [hc]
      exact h.sentClaim a ha
    · rw [hc]
      exact h.workerClaim
    · exact h.refusals_eq_of rfl rfl id hco
  | claims hworker hf =>
    have hz : s.refusals = 0 := h.refusals_eq (by rw [State.MayRefuse, hf]; trivial)
    refine { h with
      sender := ?_, sent := (fun hse => by cases hse), sentClaim := fun _ _ => rfl,
      workerClaim := ⟨fun _ => rfl, fun _ => rfl⟩, waitingClaim := ?_,
      refusals_eq := fun _ => hz }
    · exact h.sender.trans (by rw [hworker]; rfl)
    · have hwa := h.waitingClaim
      simp_all
  | abandons hworker => exact h.letGo rfl rfl (by rw [hworker]; rfl) rfl
  | counts hworker =>
    have hcl : s.claimed = some .worker := h.workerClaim.mpr (by rw [hworker]; rfl)
    have hz : s.refusals = 0 := h.refusals_eq (by rw [State.MayRefuse, hcl, hworker]; rfl)
    refine { h with
      sender := ?_, sent := (fun hse => by cases hse), sentClaim := fun _ _ => rfl,
      workerClaim := ⟨fun _ => rfl, fun _ => hcl⟩, refusals := ?_, refusals_eq := ?_ }
    · exact h.sender.trans (by rw [hworker]; rfl)
    · exact Nat.succ_le_succ (Nat.le_of_eq hz)
    · simp [State.MayRefuse, hcl, Worker.mayCount]
  | sends a w hc hs hse => exact h.send a hs hc hse

theorem step {mode : LoopMode} {m : Move} (h : Inv s) (hs : step mode m s = some s') : Inv s' := by
  have hc : ∀ reason, Inv (s.cancel reason) := by
    intro reason
    rw [State.cancel]
    split
    · exact { h with }
    · exact h
  cases m with
  | tick =>
    cases hs
    exact { h with }
  | waiting => exact h.waitingWrites (awaitQueued_writes hs)
  | worker turn => exact h.workerWrites (workerStep_writes hs)
  | leave | cancel reason =>
    cases hs
    exact hc _
  | dropWaiting =>
    obtain ⟨ha, hs'⟩ := Option.ite_none_right_eq_some.mp hs
    cases hs'
    refine h.waitingWrites (.moves _ ?_)
    rcases ha with hw | hw <;> rw [hw] <;> decide
  | tearDown =>
    obtain ⟨hworker, hs'⟩ := Option.ite_none_right_eq_some.mp hs
    cases hs'
    exact h.letGo rfl rfl (by rw [hworker]; rfl) rfl
  | lose =>
    obtain ⟨hworker, hs'⟩ := Option.ite_none_right_eq_some.mp hs
    cases hs'
    refine h.letGo rfl rfl ?_ rfl
    cases hpc : s.worker <;> simp_all [Worker.inHand, Worker.hasClaim]

end Inv

/-! ## The guarantees -/

namespace Inv

variable {s : State}

theorem answers_length_le (h : Inv s) : s.answers.length ≤ 1 := by
  rw [h.answers]
  cases hc : s.channel with
  | sent a =>
    have hcl := h.workerClaim.mpr (h.sentClaim a hc)
    rw [h.waiting_answers (by simp [hc]) (by rw [hcl]; decide)]
    exact Nat.le_refl 1
  | _ => cases s.waiting with
    | returned own => cases own <;> simp [Oneshot.answers, Waiting.answers]
    | _ => simp [Oneshot.answers, Waiting.answers]

theorem not_running (h : Inv s) {a : Answer} (ha : (Side.waiting, a) ∈ s.answers) (unsent : Bool) :
    s.worker ≠ .running unsent := by
  intro hworker
  have hc := h.workerClaim.mpr (by rw [hworker]; rfl)
  have hch : s.channel ≠ .closed := by
    cases unsent with
    | false => exact h.sent (by rw [hworker]; rfl)
    | true =>
      rw [h.sender.mpr (by rw [hworker]; rfl)]
      decide
  rw [h.answers, h.waiting_answers hch (by rw [hc]; decide), List.append_nil] at ha
  cases hs : s.channel <;> simp [hs, Oneshot.answers] at ha

end Inv

def Move.side : Move → Option Side
  | .waiting => some .waiting
  | .worker _ => some .worker
  | _ => none

/-- The side has a next step, each of its steps brings it closer to its answer, and
nobody else's takes it back. -/
structure OnItsWay (mode : LoopMode) (side : Side) (s : State) : Prop where
  next : ∃ m s', m.side = some side ∧ step mode m s = some s'
  closer : ∀ m s', m.side = some side → step mode m s = some s' → s'.left side < s.left side
  undisturbed : ∀ m s', m.side ≠ some side → m ≠ .lose → step mode m s = some s' →
    s'.left side = s.left side

section Progress

variable {mode : LoopMode} {turn : Turn} {m : Move} {s s' : State}

@[simp] theorem cancel_waiting (reason : CancelReason) : (s.cancel reason).waiting = s.waiting := by
  rw [State.cancel]
  split <;> rfl

@[simp] theorem cancel_worker (reason : CancelReason) : (s.cancel reason).worker = s.worker := by
  rw [State.cancel]
  split <;> rfl

theorem step_worker (hm : m.side ≠ some .worker) (hl : m ≠ .lose) (h : step mode m s = some s') :
    s'.worker = s.worker ∨ s.worker = .queued ∧ s'.worker = .abandoned := by
  cases m with
  | worker turn => exact absurd rfl hm
  | lose => exact absurd rfl hl
  | waiting => cases awaitQueued_writes h <;> exact .inl rfl
  | tick =>
    cases h
    exact .inl rfl
  | leave | cancel reason =>
    cases h
    exact .inl (cancel_worker _)
  | dropWaiting =>
    obtain ⟨-, hs'⟩ := Option.ite_none_right_eq_some.mp h
    cases hs'
    exact .inl rfl
  | tearDown =>
    obtain ⟨hq, hs'⟩ := Option.ite_none_right_eq_some.mp h
    cases hs'
    exact .inr ⟨hq, rfl⟩

theorem exists_workerStep (mode : LoopMode) (hc : s.worker.hasClaim = true)
    (hs : s.worker.hasSender = true) : ∃ s', workerStep mode .next s = some s' := by
  cases hworker : s.worker with
  | setup =>
    rw [workerStep.eq_def, hworker]
    cases mode with
    | traditional => exact ⟨_, rfl⟩
    | workerMode =>
      dsimp only
      split <;> exact ⟨_, rfl⟩
  | _ => simp_all [workerStep.eq_def, Worker.hasClaim, Worker.hasSender]

theorem workerStep_left (hc : s.worker.hasClaim = true) (hs : s.worker.hasSender = true)
    (h : workerStep mode turn s = some s') : s'.worker.left < s.worker.left := by
  cases workerStep_writes h with
  | moves w hm => exact hm.2.2.2.2.1 hc hs
  | claims hworker hf | abandons hworker => simp [hworker, Worker.hasClaim] at hc
  | counts hworker => simp [hworker, Worker.left]
  | sends a w _ _ hse =>
    have hd : w.left = 0 := by
      cases w <;> simp_all [Worker.hasSent, Worker.left]
    change w.left < _
    rw [hd]
    cases hworker : s.worker <;> simp_all [Worker.hasClaim, Worker.hasSender, Worker.left]

theorem exists_awaitQueued (hl : 0 < s.waiting.left) : ∃ s', awaitQueued s = some s' := by
  rw [awaitQueued]
  cases hw : s.waiting with
  | readCell =>
    dsimp only
    split <;> exact ⟨_, rfl⟩
  | countRefusal | refuse => exact ⟨_, rfl⟩
  | _ => simp [hw, Waiting.left] at hl

theorem awaitQueued_left (hl : 0 < s.waiting.left) (h : awaitQueued s = some s') :
    s'.waiting.left < s.waiting.left := by
  cases awaitQueued_writes h with
  | moves w hm => exact hm.2.2.2.1 hl
  | claims hw hf => simp [hw, Waiting.left] at hl
  | counts hw => simp [hw, Waiting.left]
  | returns a hc ha hcl => exact hl

theorem worker_onItsWay (hc : s.worker.hasClaim = true) (hs : s.worker.hasSender = true) :
    OnItsWay mode .worker s := by
  refine ⟨?_, ?_, ?_⟩
  · obtain ⟨s', hs'⟩ := exists_workerStep mode hc hs
    exact ⟨.worker .next, s', rfl, hs'⟩
  · intro m s' hm hst
    cases m with
    | worker turn => exact workerStep_left hc hs hst
    | _ => cases hm
  · intro m s' hm hl hst
    rcases step_worker hm hl hst with hsa | ⟨hq, -⟩
    · exact congrArg Worker.left hsa
    · rw [hq] at hc
      cases hc

theorem waiting_onItsWay (hl : 0 < s.waiting.left) : OnItsWay mode .waiting s := by
  refine ⟨?_, ?_, ?_⟩
  · obtain ⟨s', hs'⟩ := exists_awaitQueued hl
    exact ⟨.waiting, s', rfl, hs'⟩
  · intro m s' hm hs
    cases m with
    | waiting => exact awaitQueued_left hl hs
    | _ => cases hm
  · intro m s' hm hlo hs
    refine congrArg Waiting.left ?_
    cases m with
    | waiting => exact absurd rfl hm
    | worker turn => cases workerStep_writes hs <;> rfl
    | tick =>
      cases hs
      rfl
    | leave | cancel reason =>
      cases hs
      exact cancel_waiting _
    | dropWaiting =>
      obtain ⟨ha, -⟩ := Option.ite_none_right_eq_some.mp hs
      rcases ha with hw | hw <;> simp [hw, Waiting.left] at hl
    | tearDown =>
      obtain ⟨-, hs'⟩ := Option.ite_none_right_eq_some.mp hs
      cases hs'
      rfl
    | lose => exact absurd rfl hlo

theorem step_not_lost (hl : s.worker ≠ .lost) (hm : m ≠ .lose)
    (h : step mode m s = some s') : s'.worker ≠ .lost := by
  by_cases hs : m.side = some .worker
  · cases m with
    | worker turn =>
      cases workerStep_writes h with
      | moves w hmo => exact hmo.2.2.2.2.2
      | sends a w _ _ hse =>
        rintro rfl
        cases hse
      | _ => exact fun heq => by cases heq
    | _ => cases hs
  · rcases step_worker hs hm h with hsa | ⟨-, ha⟩
    · rw [hsa]
      exact hl
    · rw [ha]
      decide

end Progress

namespace Inv

variable {mode : LoopMode} {s : State}

theorem claimant_answers (h : Inv s) {side : Side} (hc : s.claimed = some side) :
    (∃ a, s.answers = [(side, a)]) ∨ s.answers = [] ∧ OnItsWay mode side s ∨
      side = .worker ∧ s.worker = .lost ∧
        (s.answers = [] ∨ s.answers = [(.waiting, .workerError)]) := by
  cases side with
  | waiting =>
    have hcl := h.waitingClaim.mp hc
    have hch : s.channel.answers = [] := by
      cases hse : s.channel with
      | sent a =>
        have := h.workerClaim.mpr (h.sentClaim a hse)
        rw [hc] at this
        cases this
      | _ => rfl
    rw [h.answers, hch]
    cases hw : s.waiting with
    | returned own =>
      cases own with
      | some a => exact .inl ⟨a, rfl⟩
      | none => simp [hw, Waiting.hasClaim] at hcl
    | readCell | countRefusal | refuse =>
      exact .inr (.inl ⟨rfl, waiting_onItsWay (by rw [hw]; decide)⟩)
    | _ => simp [hw, Waiting.hasClaim] at hcl
  | worker =>
    have hcl := h.workerClaim.mp hc
    have ho : s.channel ≠ .closed → s.waiting.answers = [] :=
      fun hne => h.waiting_answers hne (by rw [hc]; decide)
    cases hch : s.channel with
    | sent a =>
      rw [h.answers, ho (by simp [hch]), hch]
      exact .inl ⟨a, rfl⟩
    | empty =>
      rw [h.answers, ho (by simp [hch]), hch]
      exact .inr (.inl ⟨rfl, worker_onItsWay hcl (h.sender.mp hch)⟩)
    | closed =>
      refine .inr (.inr ⟨rfl, ?_, ?_⟩)
      · -- the sender of a claimed request is dropped unused only with the request
        have hs := h.sender
        have hse := h.sent
        cases hworker : s.worker with
        | lost => rfl
        | running unsent => cases unsent <;> simp_all [Worker.hasSender, Worker.hasSent]
        | _ => simp_all [Worker.hasClaim, Worker.hasSender, Worker.hasSent]
      · -- without the claim the waiting side answers nothing but 500
        have hno : s.waiting.hasClaim ≠ true := fun hw => by
          have := h.waitingClaim.mpr hw
          rw [hc] at this
          cases this
        rw [h.answers, hch]
        cases hw : s.waiting with
        | returned own =>
          cases own with
          | none => exact .inl rfl
          | some a =>
            have ha : a = .workerError := by simpa [hw, Waiting.hasClaim] using hno
            rw [ha]
            exact .inr rfl
        | _ => exact .inl rfl

end Inv

/-- **One answer, from whoever has the claim.**  In every order of the steps of both
sides, of the client and of other cancellers, a request with a deadline is answered at
most once and counted as at most one refusal, and its handler does not run where the
waiting side has answered.  Whoever has the claim has given the answer or is on its way
to, unless it is a worker that dropped the request: the answer, if there is one, is then
the waiting side's 500. -/
theorem queued_request_settled (mode : LoopMode) (deadline : Nat) (moves : List Move) (s : State)
    (hrun : run mode moves (start deadline) = some s) : s.answers.length ≤ 1 ∧
      (∀ a, (Side.waiting, a) ∈ s.answers → ∀ unsent, s.worker ≠ .running unsent) ∧ s.refusals ≤ 1 ∧
      (∀ side, s.claimed = some side → (∃ a, s.answers = [(side, a)]) ∨
        s.answers = [] ∧ OnItsWay mode side s ∨ side = .worker ∧ s.worker = .lost ∧
          (s.answers = [] ∨ s.answers = [(.waiting, .workerError)])) ∧
      (Move.lose ∉ moves → s.worker ≠ .lost) := by
  have hinv : Inv s := Runs.run_invariant (fun _ _ _ h hs => h.step hs) (.start deadline) hrun
  refine ⟨hinv.answers_length_le, fun a ha => hinv.not_running ha, hinv.refusals,
    fun _ hc => hinv.claimant_answers hc, fun hl => ?_⟩
  have hmo : Runs.Along (step mode) (fun m _ => m ≠ .lose) moves (start deadline) :=
    Runs.along_of_forall fun m hm _ heq => hl (heq ▸ hm)
  refine Runs.run_invariant_along (P := fun s => s.worker ≠ .lost) ?_ ?_ hmo hrun
  · exact fun m s s' hlo hm hs => step_not_lost hlo hm hs
  · simp [start]

/-- The deadline passes, and a worker takes the request before the waiting side can
claim it: the worker's refusal is the one answer. -/
def lateWorker : List Move :=
  [.tick, .tick, .waiting, .waiting, .worker .next, .worker .next, .waiting, .worker .next,
    .worker .next, .worker .next, .worker .next, .waiting]

theorem queued_request_settled_lateWorker : ∃ s, run .workerMode lateWorker (start 1) = some s ∧
      s.claimed = some .worker ∧ s.refusals = 1 ∧ s.waiting = .returned none ∧
      (∃ a, s.answers = [(.worker, a)]) := by
  have he : (run .workerMode lateWorker (start 1)).any (fun s => decide
      (s.claimed = some .worker ∧ s.refusals = 1 ∧ s.waiting = .returned none ∧ s.answers ≠ [])) =
        true := by
    decide +kernel
  obtain ⟨s, hs, he⟩ := (Option.any_eq_true _ _).mp he
  obtain ⟨hc, hr, hw, ha⟩ := of_decide_eq_true he
  refine ⟨s, hs, hc, hr, hw, ?_⟩
  have h := queued_request_settled .workerMode 1 lateWorker s hs
  rcases h.2.2.2.1 .worker hc with han | ⟨hn, -⟩ | ⟨-, hl, -⟩
  · exact han
  · exact absurd hn ha
  · exact absurd hl (h.2.2.2.2 (by decide))

/-- A worker takes the request in time, its handler parks and the worker retires with it. -/
def retiredWorker : List Move :=
  [.waiting, .worker .next, .worker .next, .worker .next, .worker .next, .worker .next, .lose,
    .waiting, .waiting]

/-- The worker has the claim, and the answer is the waiting side's. -/
theorem retired_worker_leaves_answer : ∃ s, run .workerMode retiredWorker (start 1) = some s ∧
    s.claimed = some .worker ∧ s.answers = [(.waiting, .workerError)] ∧
    s.waiting = .returned (some .workerError) :=
  ⟨_, rfl, rfl, rfl, rfl⟩

end OxPhp.Executor.QueuedRequest
