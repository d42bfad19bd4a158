import Mathlib.Algebra.BigOperators.Group.Multiset.Basic
import Mathlib.Data.Multiset.Range
import OxPhp.Lib.ByteStr
import OxPhp.Lib.Ledger

/-!
# Spooled responses

Output that outgrows its buffer moves to a temporary file, and every spool file
of the process draws on one budget.  A response that cannot be spooled is refused
for good.  Between two responses only the budget is shared; whether the file can
be created and written is left to the schedule.
-/

namespace OxPhp.Php.ResponseSpool

open Interleave ByteStr

def checkedAdd (a b : Nat) : Option Nat := if a + b < 2 ^ 64 then some (a + b) else none

def fetchSub (a b : Nat) : Nat := if b ≤ a then a - b else a + 2 ^ 64 - b

structure SpoolConfig where
  bufferBytes : Nat
  max : Nat
  max_lt : max < 2 ^ 64

/-- `Reservation`: a file's share of the budget.  The number tells one from
another. -/
structure Reservation where
  bytes : Nat
  number : Nat
deriving DecidableEq

structure Spool where
  file : Bytes
  reservation : Reservation
deriving DecidableEq

inductive Spooled where
  | inMemory
  | spooling (spool : Spool)
  | refused
deriving DecidableEq

inductive Op where
  /-- `Spooled::append`, with what `spoolable` would answer. -/
  | append (data : Bytes) (spoolable : Bool)
  /-- `take_response`: `Spooled::take`, then the output left in memory. -/
  | take
deriving DecidableEq

def Op.data : Op → Bytes
  | append data _ => data
  | take => []

def appended (calls : List Op) : Bytes := calls.flatMap Op.data

/-- The buffer of a response.  The other fields are its history: the calls made
so far, what was handed over by them, and whether it was ever refused. -/
structure Response where
  output : Bytes
  calls : List Op
  handed : Bytes
  wasRefused : Bool

/-- `response_spool::body` over a spool file: the file, then the tail.  The other
fields say when it was taken. -/
structure Body where
  spool : Spool
  tail : Bytes
  before : Bytes
  calls : List Op
deriving DecidableEq

/-- What a client reads of the body: as much of the file as was reserved for it. -/
def Body.read (body : Body) : Bytes :=
  body.spool.file.take body.spool.reservation.bytes ++ body.tail

/-- `SpoolBudget`, the bodies not dropped yet, how many reservations have been
created and the numbers of those released. -/
structure Budget where
  inUse : Nat
  bodies : List Body
  created : Nat
  released : List Nat

/-- `SpoolBudget::reserve`: the counter after it, unless it is refused. -/
def SpoolConfig.reserve (config : SpoolConfig) (inUse bytes : Nat) : Option Nat :=
  (checkedAdd inUse bytes).filter fun total => total ≤ config.max

def Budget.release (s : Budget) (reservation : Reservation) : Budget :=
  { s with
    inUse := fetchSub s.inUse reservation.bytes
    released := s.released ++ [reservation.number] }

inductive Caller where
  | append
  | take

/-- A `spill_or_refuse` in progress, and the calls left after it. -/
structure Spill where
  response : Response
  data : Bytes
  caller : Caller
  todo : List Op

def Spill.bytes (w : Spill) : Nat := w.response.output.length + w.data.length

inductive Pc where
  | next (spooled : Spooled) (r : Response) (todo : List Op)
  | create (w : Spill)
  | reserve (spool : Spool) (w : Spill)
  | reserved (spool : Spool) (w : Spill)
  | write (spool : Spool) (w : Spill)
  | refuse (spool : Spool) (w : Spill)
  | clear (spool : Spool)
  | dropBody

inductive Call where
  | respond (script : List Op)
  | dropBody

inductive Answer where
  | ended
  | dropped

def Response.new : Response := ⟨[], [], [], false⟩

def Response.called (r : Response) (op : Op) : Response := { r with calls := r.calls ++ [op] }

def Response.refuse (r : Response) : Response := { r with output := [], wasRefused := true }

def Call.entry : Call → Pc
  | respond script => .next .inMemory .new script
  | dropBody => .dropBody

def Spill.refused (w : Spill) : Pc := .next .refused w.response.refuse w.todo

/-- `Spooled::spill`, up to its first step on the budget. -/
def spill : Spooled → Spill → Pc
  | .inMemory, w => .create w
  | .spooling spool, w => .reserve spool w
  -- not reached: both callers have asked
  | .refused, w => .next .refused { w.response with output := [] } w.todo

def append (config : SpoolConfig) (spooled : Spooled) (r : Response) (data : Bytes)
    (spoolable : Bool) (todo : List Op) : Pc :=
  if spooled = .refused then .next spooled r todo
  else if r.output.length + data.length ≤ config.bufferBytes ∨ spoolable = false then
    .next spooled { r with output := r.output ++ data } todo
  else spill spooled ⟨r, data, .append, todo⟩

/-- The end of `take_response`: the spool becomes a body, or the output does. -/
def handOver (r : Response) (todo : List Op) (s : Budget) : Spooled → Pc × Budget
  | .spooling spool =>
    (.next .inMemory { r with output := [], handed := r.handed ++ spool.file ++ r.output } todo,
      { s with bodies := s.bodies ++ [⟨spool, r.output, r.handed, r.calls⟩] })
  | .refused => (.next .refused { r with output := [] } todo, s)
  | .inMemory =>
    (.next .inMemory { r with output := [], handed := r.handed ++ r.output } todo, s)

def take (r : Response) (todo : List Op) (s : Budget) : Spooled → Pc × Budget
  | .spooling spool =>
    if r.output = [] then handOver r todo s (.spooling spool)
    else (spill (.spooling spool) ⟨r, [], .take, todo⟩, s)
  | spooled => handOver r todo s spooled

/-- What follows a successful `Spool::write`: `output.clear()`, and back to the
caller. -/
def Spill.wrote (w : Spill) (spool : Spool) (s : Budget) : Pc × Budget :=
  let r : Response := { w.response with output := [] }
  match w.caller with
  | .append => (.next (.spooling spool) r w.todo, s)
  | .take => handOver r w.todo s (.spooling spool)

def Spool.written (spool : Spool) (w : Spill) : Spool :=
  { spool with file := spool.file ++ w.response.output ++ w.data }

def Spool.counted (spool : Spool) (w : Spill) : Spool :=
  { spool with reservation.bytes := spool.reservation.bytes + w.bytes }

def act (config : SpoolConfig) : Pc → Budget → List (Next Pc Answer × Budget)
  | .next (.spooling spool) _ [], s => [(.go (.clear spool), s)]
  | .next _ _ [], s => [(.ret .ended, s)]
  | .next spooled r (.append data spoolable :: todo), s =>
    [(.go (append config spooled (r.called (.append data spoolable)) data spoolable todo), s)]
  | .next spooled r (.take :: todo), s =>
    [(.go (take (r.called .take) todo s spooled).1, (take (r.called .take) todo s spooled).2)]
  | .create w, s =>
    [(.go (.reserve ⟨[], 0, s.created⟩ w), { s with created := s.created + 1 }),
      (.go w.refused, s)]
  | .reserve spool w, s =>
    match config.reserve s.inUse w.bytes with
    | some total => [(.go (.reserved spool w), { s with inUse := total })]
    | none => [(.go (.refuse spool w), s)]
  | .reserved spool w, s => [(.go (.write (spool.counted w) w), s)]
  | .write spool w, s =>
    [(.go (w.wrote (spool.written w) s).1, (w.wrote (spool.written w) s).2),
      -- a failed write leaves an unknown part of it in a file that is dropped
      (.go (.refuse spool w), s)]
  | .refuse spool w, s => [(.go w.refused, s.release spool.reservation)]
  | .clear spool, s => [(.ret .ended, s.release spool.reservation)]
  | .dropBody, s => s.bodies.map fun body =>
    (.ret .dropped, { s.release body.spool.reservation with bodies := s.bodies.erase body })

abbrev State := Config Budget Pc Answer

def machine (config : SpoolConfig) : Machine Budget Pc Call Answer Empty where
  entry := Call.entry
  act := act config
  env := nofun

def start : State := ⟨⟨0, [], 0, []⟩, [], []⟩

/-! ## What a response holds -/

/-- The file holds what its reservation counts. -/
def Spool.Exact (spool : Spool) : Prop := spool.reservation.bytes = spool.file.length

/-- What was handed over, what is in the file, what is in memory and what a call
still carries are, in this order, all that was appended. -/
structure Response.Whole (r : Response) (file data : Bytes) : Prop where
  fresh : r.wasRefused = false
  all : r.handed ++ file ++ r.output ++ data = appended r.calls

/-- A spill is called by `take_response` or by the `append` called last. -/
def Spill.Called (w : Spill) : Prop :=
  w.caller = .append → w.response.calls.getLast? ≠ some .take

def Pc.Whole : Pc → Prop
  | next .inMemory r _ => r.Whole [] [] ∧ (r.calls.getLast? = some .take → r.output = [])
  | next (.spooling spool) r _ =>
    spool.Exact ∧ r.Whole spool.file [] ∧ r.calls.getLast? ≠ some .take
  | next .refused r _ => r.wasRefused = true ∧ r.output = []
  | create w => w.response.Whole [] w.data ∧ w.Called
  | reserve spool w => spool.Exact ∧ w.response.Whole spool.file w.data ∧ w.Called
  | reserved spool w => spool.Exact ∧ w.response.Whole spool.file w.data ∧ w.Called
  | write spool w => (spool.written w).Exact ∧ w.response.Whole spool.file w.data ∧ w.Called
  | _ => True

/-- The file a response's output starts in. -/
def Spooled.file : Spooled → Bytes
  | spooling spool => spool.file
  | _ => []

/-- The body is all that the response had been given since an earlier one. -/
structure Body.Whole (body : Body) : Prop where
  exact : body.spool.Exact
  tail : body.tail = []
  all : body.before ++ body.spool.file = appended body.calls

theorem Body.Whole.read {body : Body} (h : body.Whole) : body.read = body.spool.file := by
  have hb : body.spool.reservation.bytes = body.spool.file.length := h.exact
  rw [Body.read, h.tail, hb, List.take_length, List.append_nil]

theorem appended_called (r : Response) (op : Op) :
    appended (r.called op).calls = appended r.calls ++ op.data := by
  simp [appended, Response.called]

theorem getLast?_called (r : Response) (op : Op) : (r.called op).calls.getLast? = some op := by
  simp [Response.called]

variable {r : Response} {file data : Bytes} {spool : Spool} {config : SpoolConfig} {c : State}

theorem Response.Whole.called (h : r.Whole file []) (op : Op) :
    (r.called op).Whole file op.data := by
  refine ⟨h.fresh, ?_⟩
  rw [appended_called, ← h.all, List.append_nil]
  rfl

theorem Response.Whole.stored (h : r.Whole file data) :
    ({ r with output := r.output ++ data } : Response).Whole file [] := by
  refine ⟨h.fresh, ?_⟩
  rw [← h.all, List.append_nil, List.append_assoc _ r.output data]

theorem Response.Whole.written {w : Spill} (h : w.response.Whole spool.file w.data) :
    ({ w.response with output := [] } : Response).Whole (spool.written w).file [] := by
  refine ⟨h.fresh, ?_⟩
  rw [← h.all]
  simp [Spool.written]

theorem whole_refused (w : Spill) : w.refused.Whole := ⟨rfl, rfl⟩

theorem append_whole {spooled : Spooled}
    {spoolable : Bool} {todo todo' : List Op} (h : (Pc.next spooled r todo').Whole) :
    (append config spooled (r.called (.append data spoolable)) data spoolable todo).Whole := by
  have hlast := getLast?_called r (.append data spoolable)
  have hnot : (r.called (.append data spoolable)).calls.getLast? ≠ some .take := by simp [hlast]
  cases spooled with
  | refused => exact h
  | inMemory =>
    have hall := h.1.called (.append data spoolable)
    rw [append, if_neg (by simp)]
    split
    · exact ⟨hall.stored, fun ht => absurd ht hnot⟩
    · exact ⟨hall, fun _ => hnot⟩
  | spooling spool =>
    obtain ⟨he, hw, -⟩ := h
    have hall := hw.called (.append data spoolable)
    rw [append, if_neg (by simp)]
    split
    · exact ⟨he, hall.stored, hnot⟩
    · exact ⟨he, hall, fun _ => hnot⟩

theorem Spool.Exact.counted (h : spool.Exact) (w : Spill) :
    ((spool.counted w).written w).Exact := by
  have hb : spool.reservation.bytes = spool.file.length := h
  simp only [Spool.Exact, Spool.written, Spool.counted, Spill.bytes, List.length_append]
  omega

/-! ## The books -/

def Spooled.held : Spooled → Multiset Reservation
  | spooling spool => {spool.reservation}
  | _ => 0

/-- The reservation an operation holds. -/
def Pc.held : Pc → Multiset Reservation
  | next spooled _ _ => spooled.held
  | reserve spool _ => {spool.reservation}
  | reserved spool _ => {spool.reservation}
  | write spool _ => {spool.reservation}
  | refuse spool _ => {spool.reservation}
  | clear spool => {spool.reservation}
  | _ => 0

/-- What the budget counts and no reservation does yet. -/
def Pc.pending : Pc → Nat
  | reserved _ w => w.bytes
  | _ => 0

def Budget.served (s : Budget) : Multiset Reservation :=
  (s.bodies.map fun body => body.spool.reservation : List Reservation)

def live (c : State) : Multiset Reservation := c.inHands Pc.held + c.shared.served

def sumBytes (reservations : Multiset Reservation) : Nat :=
  (reservations.map Reservation.bytes).sum

theorem sumBytes_singleton (reservation : Reservation) :
    sumBytes {reservation} = reservation.bytes := by
  simp [sumBytes]

/-- What a step does to the books, with the reservations that are gone after it and
those that are new.  A release is exact as long as the budget counts what is
released. -/
structure Books (config : SpoolConfig) (pc : Pc) (s : Budget) (next : Next Pc Answer)
    (s' : Budget) (lost gained : Multiset Reservation) : Prop where
  held : next.holds Pc.held (fun _ => 0) + s'.served + lost = pc.held + s.served + gained
  bytes : sumBytes lost ≤ s.inUse + sumBytes gained →
    s'.inUse + sumBytes lost + pc.pending =
      s.inUse + sumBytes gained + next.holds Pc.pending (fun _ => 0)
  within : sumBytes lost ≤ s.inUse + sumBytes gained →
    s'.inUse ≤ s.inUse ∨ s'.inUse ≤ config.max
  numbers : lost.map Reservation.number + s.released + Multiset.range s'.created =
    gained.map Reservation.number + s'.released + Multiset.range s.created

/-- What a step leaves: whole responses and bodies, and the books. -/
structure Step (config : SpoolConfig) (pc : Pc) (s : Budget) (next : Next Pc Answer)
    (s' : Budget) : Prop where
  whole : ∀ pc' ∈ next.pcs, pc'.Whole
  bodies : ∀ body ∈ s'.bodies, body.Whole
  books : ∃ lost gained, Books config pc s next s' lost gained

section Step

variable {pc pc' : Pc} {s s' : Budget} {next : Next Pc Answer} {spooled : Spooled}
  {todo todo' : List Op} {w : Spill} {bodies : List Body} {lost gained : Multiset Reservation}

theorem Books.move (hp : next.holds Pc.pending (fun _ => 0) = pc.pending)
    (hh : next.holds Pc.held (fun _ => 0) + Budget.served { s with bodies } =
      pc.held + s.served) : Books config pc s next { s with bodies } 0 0 where
  held := congrArg (· + 0) hh
  bytes _ := by rw [hp]
  within _ := .inl le_rfl
  numbers := rfl

theorem Books.release (reservation : Reservation)
    (hp : next.holds Pc.pending (fun _ => 0) = pc.pending) (hh : next.holds Pc.held (fun _ => 0) +
      Budget.served { s with bodies } + {reservation} = pc.held + s.served) :
    Books config pc s next { s.release reservation with bodies } {reservation} 0 where
  held := hh.trans (add_zero _).symm
  bytes hle := by
    rw [sumBytes_singleton] at hle ⊢
    have hin : (s.release reservation).inUse = s.inUse - reservation.bytes := if_pos hle
    have hle : reservation.bytes ≤ s.inUse := hle
    change (s.release reservation).inUse + _ + _ = s.inUse + 0 + _
    omega
  within hle := by
    rw [sumBytes_singleton] at hle
    have hin : (s.release reservation).inUse = s.inUse - reservation.bytes := if_pos hle
    exact .inl (hin ▸ Nat.sub_le _ _)
  numbers := by
    change _ + (s.released : Multiset Nat) + Multiset.range s.created =
      0 + ((s.released ++ [reservation.number] : List Nat) : Multiset Nat) + _
    rw [Multiset.map_singleton, ← Multiset.coe_add, Multiset.coe_singleton]
    abel

theorem Books.create : Books config (.create w) s (.go (.reserve ⟨[], 0, s.created⟩ w))
      { s with created := s.created + 1 } 0 {⟨0, s.created⟩} where
  held := by
    change {_} + s.served + 0 = 0 + s.served + _
    abel
  bytes _ := by simp [Next.holds, Pc.pending, sumBytes]
  within _ := .inl le_rfl
  numbers := by
    rw [Multiset.range_succ, Multiset.map_singleton, Multiset.map_zero, ← Multiset.singleton_add]
    abel

theorem Books.draw (hf : s.inUse + w.bytes ≤ config.max) :
    Books config (.reserve spool w) s (.go (.reserved spool w))
      { s with inUse := s.inUse + w.bytes } 0 0 where
  held := rfl
  bytes _ := by simp [Next.holds, Pc.pending, sumBytes]
  within _ := .inr hf
  numbers := rfl

theorem Books.count : Books config (.reserved spool w) s (.go (.write (spool.counted w) w)) s
      {spool.reservation} {(spool.counted w).reservation} where
  held := by
    change {_} + s.served + _ = {_} + s.served + _
    abel
  bytes _ := by
    rw [sumBytes_singleton, sumBytes_singleton]
    exact Nat.add_assoc _ _ _
  within _ := .inl le_rfl
  numbers := rfl

theorem Step.go (hw : pc'.Whole) (hb : ∀ body ∈ s'.bodies, body.Whole)
    (hbo : Books config pc s (.go pc') s' lost gained) : Step config pc s (.go pc') s' :=
  ⟨fun _ hpc => List.mem_singleton.mp hpc ▸ hw, hb, lost, gained, hbo⟩

theorem Step.still (hw : pc'.Whole) (hb : ∀ body ∈ s.bodies, body.Whole)
    (hp : pc'.pending = pc.pending) (hh : pc'.held = pc.held) : Step config pc s (.go pc') s :=
  .go hw hb (.move hp (congrArg (· + s.served) hh))

theorem Step.ret {answer : Answer}
    (hb : ∀ body ∈ s'.bodies, body.Whole) (hbo : Books config pc s (.ret answer) s' lost gained) :
    Step config pc s (.ret answer) s' :=
  ⟨Next.forall_pcs_ret _, hb, lost, gained, hbo⟩

theorem append_books (config : SpoolConfig) (spooled : Spooled) (r : Response) (data : Bytes)
    (spoolable : Bool) (todo : List Op) :
    (append config spooled r data spoolable todo).pending = 0 ∧
      (append config spooled r data spoolable todo).held = spooled.held := by
  rw [append]
  split
  · exact ⟨rfl, rfl⟩
  · split
    · exact ⟨rfl, rfl⟩
    · cases spooled <;> exact ⟨rfl, rfl⟩

theorem handOver_step (he : spool.Exact) (hw : r.Whole spool.file [])
    (hout : r.output = []) (hb : ∀ body ∈ s.bodies, body.Whole)
    (hp : pc.pending = 0) (hh : pc.held = {spool.reservation}) :
    Step config pc s (.go (handOver r todo s (.spooling spool)).1)
      (handOver r todo s (.spooling spool)).2 := by
  refine .go ⟨⟨hw.fresh, ?_⟩, fun _ => rfl⟩ (fun body hbo => ?_)
    (.move hp.symm ?_)
  · rw [← hw.all]
    simp [hout]
  · rcases List.mem_append.mp hbo with hbo | hbo
    · exact hb body hbo
    · obtain rfl := List.mem_singleton.mp hbo
      refine ⟨he, hout, ?_⟩
      have hall := hw.all
      rwa [hout, List.append_nil, List.append_nil] at hall
  · rw [hh]
    simp [handOver, Next.holds, Pc.held, Spooled.held, Budget.served, add_comm,
      ← Multiset.coe_add]

theorem take_step (h : (Pc.next spooled r todo').Whole) (hb : ∀ body ∈ s.bodies, body.Whole) :
    Step config (.next spooled r todo') s (.go (take (r.called .take) todo s spooled).1)
      (take (r.called .take) todo s spooled).2 := by
  cases spooled with
  | refused => exact .still ⟨h.1, rfl⟩ hb rfl rfl
  | inMemory =>
    obtain ⟨hf, hall⟩ := h.1.called .take
    refine .still ⟨⟨hf, ?_⟩, fun _ => rfl⟩ hb rfl rfl
    rw [← hall]
    simp [Op.data]
  | spooling spool =>
    obtain ⟨he, hw, -⟩ := h
    have hall := hw.called .take
    rw [take]
    split
    · next hem => exact handOver_step he hall hem hb rfl rfl
    · exact .still ⟨he, hall, fun hc => by cases hc⟩ hb rfl rfl

theorem wrote_step (h : (Pc.write spool w).Whole) (hb : ∀ body ∈ s.bodies, body.Whole) :
    Step config (.write spool w) s (.go (w.wrote (spool.written w) s).1)
      (w.wrote (spool.written w) s).2 := by
  obtain ⟨he, hw, hc⟩ := h
  rw [Spill.wrote]
  split
  · next hca => exact .still ⟨he, hw.written, hc hca⟩ hb rfl rfl
  · exact handOver_step he hw.written rfl hb rfl rfl

theorem reserve_eq_some {inUse bytes total : Nat} (h : config.reserve inUse bytes = some total) :
    total = inUse + bytes ∧ inUse + bytes ≤ config.max := by
  obtain ⟨hadd, hf⟩ := Option.filter_eq_some_iff.mp h
  rw [checkedAdd] at hadd
  split at hadd
  · obtain rfl := Option.some.inj hadd
    exact ⟨rfl, of_decide_eq_true hf⟩
  · cases hadd

/-- **What a step does.** -/
theorem act_step (hout : (next, s') ∈ act config pc s) (hpc : pc.Whole)
    (hb : ∀ body ∈ s.bodies, body.Whole) : Step config pc s next s' := by
  cases pc with
  | next spooled r todo =>
    cases todo with
    | nil =>
      cases spooled with
      | spooling spool =>
        cases sole_outcome hout
        exact .still trivial hb rfl rfl
      | inMemory | refused =>
        cases sole_outcome hout
        exact .ret hb (.move rfl rfl)
    | cons op todo =>
      cases op with
      | append data spoolable =>
        rw [act] at hout
        cases sole_outcome hout
        obtain ⟨hp, hh⟩ := append_books config spooled
          (r.called (.append data spoolable)) data spoolable todo
        exact .still (append_whole hpc) hb hp hh
      | take =>
        rw [act] at hout
        cases sole_outcome hout
        exact take_step hpc hb
  | create w =>
    rcases List.mem_cons.mp hout with hout | hout
    · obtain ⟨rfl, rfl⟩ := Prod.mk.inj hout
      exact .go ⟨rfl, hpc.1, hpc.2⟩ hb .create
    · cases sole_outcome hout
      exact .still (whole_refused w) hb rfl rfl
  | reserve spool w =>
    rw [act] at hout
    split at hout
    · next total hr =>
      cases sole_outcome hout
      obtain ⟨rfl, hf⟩ := reserve_eq_some hr
      exact .go hpc hb (.draw hf)
    · cases sole_outcome hout
      exact .still trivial hb rfl rfl
  | reserved spool w =>
    cases sole_outcome hout
    exact .go ⟨hpc.1.counted w, hpc.2⟩ hb .count
  | write spool w =>
    rcases List.mem_cons.mp hout with hout | hout
    · obtain ⟨rfl, rfl⟩ := Prod.mk.inj hout
      exact wrote_step hpc hb
    · cases sole_outcome hout
      exact .still trivial hb rfl rfl
  | refuse spool w =>
    cases sole_outcome hout
    exact .go (whole_refused w) hb
      (.release spool.reservation rfl ((congrArg (· + _) (zero_add _)).trans (add_comm _ _)))
  | clear spool =>
    cases sole_outcome hout
    exact .ret hb
      (.release spool.reservation rfl ((congrArg (· + _) (zero_add _)).trans (add_comm _ _)))
  | dropBody =>
    obtain ⟨body, hbo, heq⟩ := List.mem_map.mp hout
    obtain ⟨rfl, rfl⟩ := Prod.mk.inj heq
    refine .ret (fun other ho => hb other (List.mem_of_mem_erase ho))
      (.release body.spool.reservation rfl ?_)
    have hpe := (List.perm_cons_erase hbo).map fun body => body.spool.reservation
    rw [Next.holds, zero_add, add_comm, Multiset.singleton_add]
    exact (Multiset.coe_eq_coe.mpr hpe).symm.trans (zero_add _).symm

end Step

/-! ## Every interleaving -/

structure Booked (config : SpoolConfig) (c : State) : Prop where
  exact : c.shared.inUse = sumBytes (live c) + c.inHands Pc.pending
  within : c.shared.inUse ≤ config.max
  once : (live c).map Reservation.number + c.shared.released =
    Multiset.range c.shared.created

section Run

variable {before after : List Pc} {pc : Pc} {next : Next Pc Answer} {s' : Budget}
  {lost gained : Multiset Reservation}

theorem live_act (hrunning : c.running = before ++ pc :: after) (returned : List Answer)
    (h : next.holds Pc.held (fun _ => 0) + s'.served + lost =
      pc.held + c.shared.served + gained) :
    live ⟨s', before ++ next.pcs ++ after, returned⟩ + lost = live c + gained := by
  have hh := Config.inHands_act hrunning Pc.held next s' returned
  apply add_right_cancel (b := pc.held)
  calc live ⟨s', before ++ next.pcs ++ after, returned⟩ + lost + pc.held
      = (Config.inHands Pc.held ⟨s', before ++ next.pcs ++ after, returned⟩ + pc.held) +
          (s'.served + lost) := by
        rw [live]
        abel
    _ = c.inHands Pc.held + (next.holds Pc.held (fun _ => 0) + s'.served + lost) := by
        rw [hh]
        abel
    _ = live c + gained + pc.held := by
        rw [h, live]
        abel

theorem measures_act {a b : Multiset Reservation} (h : a + lost = b + gained) :
    sumBytes a + sumBytes lost = sumBytes b + sumBytes gained ∧
      a.map Reservation.number + lost.map Reservation.number =
        b.map Reservation.number + gained.map Reservation.number := by
  constructor
  · simpa [sumBytes] using congrArg sumBytes h
  · simpa using congrArg (Multiset.map Reservation.number) h

theorem Booked.act (h : Booked config c) (hrunning : c.running = before ++ pc :: after)
    (hb : Books config pc c.shared next s' lost gained) (returned : List Answer) :
    Booked config ⟨s', before ++ next.pcs ++ after, returned⟩ := by
  obtain ⟨he, hw, ho⟩ := h
  obtain ⟨hh, hby, hmax, hn⟩ := hb
  have hp := Config.inHands_act hrunning Pc.pending next s' returned
  obtain ⟨hsum, hmap⟩ := measures_act (live_act hrunning returned hh)
  have hc : sumBytes lost ≤ c.shared.inUse + sumBytes gained := by omega
  refine ⟨?_, ?_, ?_⟩
  · have hby := hby hc
    change s'.inUse = _
    omega
  · rcases hmax hc with hle | hle
    · exact hle.trans hw
    · exact hle
  · generalize live ⟨s', before ++ next.pcs ++ after, returned⟩ = live' at hmap ⊢
    apply add_right_cancel
      (b := gained.map Reservation.number + Multiset.range c.shared.created)
    calc live'.map Reservation.number + s'.released +
          (gained.map Reservation.number + Multiset.range c.shared.created)
        = live'.map Reservation.number + (gained.map Reservation.number + s'.released +
            Multiset.range c.shared.created) := by abel
      _ = (live'.map Reservation.number + lost.map Reservation.number) + c.shared.released +
            Multiset.range s'.created := by
          rw [← hn]
          abel
      _ = ((live c).map Reservation.number + c.shared.released) +
            gained.map Reservation.number + Multiset.range s'.created := by
          rw [hmap]
          abel
      _ = Multiset.range s'.created +
            (gained.map Reservation.number + Multiset.range c.shared.created) := by
          rw [ho]
          abel

end Run

structure Sound (config : SpoolConfig) (c : State) : Prop extends Booked config c where
  contents : ∀ spooled r todo, .next spooled r todo ∈ c.running → spooled ≠ .refused →
    r.handed ++ spooled.file ++ r.output = appended r.calls
  taken : ∀ spooled r todo, .next spooled r todo ∈ c.running → spooled ≠ .refused →
    r.calls.getLast? = some .take → spooled = .inMemory ∧ r.output = []
  whole : ∀ body ∈ c.shared.bodies, body.before ++ body.read = appended body.calls
  permanent : ∀ spooled r todo, .next spooled r todo ∈ c.running →
    (r.wasRefused = true ↔ spooled = .refused) ∧ (r.wasRefused = true → r.output = [])

structure Invariant (config : SpoolConfig) (c : State) : Prop extends Booked config c where
  pcs : ∀ pc ∈ c.running, pc.Whole
  bodies : ∀ body ∈ c.shared.bodies, body.Whole

theorem Invariant.step {c' : State} (h : Invariant config c)
    (hf : (machine config).Fires (fun _ _ => True) c c') : Invariant config c' := by
  cases hf with
  | call k =>
    have he : k.entry.Whole ∧ k.entry.held = 0 ∧ k.entry.pending = 0 := by
      cases k with
      | respond script => exact ⟨⟨⟨rfl, rfl⟩, fun _ => rfl⟩, rfl, rfl⟩
      | dropBody => exact ⟨trivial, rfl, rfl⟩
    obtain ⟨hw, hh, hp⟩ := he
    change Invariant config { c with running := c.running ++ [k.entry] }
    have hl : live { c with running := c.running ++ [k.entry] } = live c := by
      rw [live, live, Config.inHands_called hh]
    refine ⟨⟨?_, h.within, ?_⟩, forall_called h.pcs hw, h.bodies⟩
    · rw [hl, Config.inHands_called hp]
      exact h.exact
    · rw [hl]
      exact h.once
  | env e => cases e
  | @act before after pc next s hrunning _ hout =>
    have hold : ∀ pc' ∈ before ++ pc :: after, pc'.Whole := hrunning ▸ h.pcs
    have hpc : pc.Whole := hold pc (List.mem_append_right _ List.mem_cons_self)
    obtain ⟨hn, hb, lost, gained, hbo⟩ := act_step hout hpc h.bodies
    exact ⟨h.toBooked.act hrunning hbo _, forall_running hold hn, hb⟩

theorem invariant_start (config : SpoolConfig) : Invariant config start :=
  ⟨⟨rfl, Nat.zero_le _, rfl⟩, fun _ hpc => absurd hpc List.not_mem_nil,
    fun _ hb => absurd hb List.not_mem_nil⟩

theorem Invariant.sound (h : Invariant config c) : Sound config c where
  toBooked := h.toBooked
  contents spooled r todo hrunning hnot := by
    have hpc := h.pcs _ hrunning
    cases spooled with
    | refused => exact absurd rfl hnot
    | inMemory =>
      have hall := hpc.1.all
      rwa [List.append_nil _] at hall
    | spooling spool =>
      have hall := hpc.2.1.all
      rwa [List.append_nil _] at hall
  taken spooled r todo hrunning hnot ht := by
    have hpc := h.pcs _ hrunning
    cases spooled with
    | refused => exact absurd rfl hnot
    | inMemory => exact ⟨rfl, hpc.2 ht⟩
    | spooling spool => exact absurd ht hpc.2.2
  whole body hb := by
    have hw := h.bodies body hb
    rw [hw.read, hw.all]
  permanent spooled r todo hrunning := by
    have hpc := h.pcs _ hrunning
    cases spooled with
    | refused => exact ⟨⟨fun _ => rfl, fun _ => hpc.1⟩, fun _ => hpc.2⟩
    | inMemory => simp [hpc.1.fresh]
    | spooling spool => simp [hpc.2.1.fresh]

theorem Sound.quiet (h : Sound config c) (hrunning : c.running = []) (hb : c.shared.bodies = []) :
    c.shared.inUse = 0 ∧ c.shared.released.Perm (List.range c.shared.created) := by
  have hl : live c = 0 := by
    simp [live, Config.inHands, Budget.served, hrunning, hb]
  constructor
  · rw [h.exact, hl, Config.inHands, hrunning]
    rfl
  · have ho := h.once
    rw [hl, Multiset.map_zero, zero_add] at ho
    exact Multiset.coe_eq_coe.mp ho

/-- **Spooling loses nothing and the budget is exact.** However responses
interleave and whichever files cannot be created or written, each response holds
all that it was given unless it was refused, and the budget counts the live
reservations; once no response and no body is left, all of it has been given back,
each reservation once. -/
theorem spool_sound {config : SpoolConfig} {moves : List (Move Call Empty)} {c : State}
    (hrun : (machine config).run start moves = some c) :
    Sound config c ∧ (c.running = [] → c.shared.bodies = [] →
      c.shared.inUse = 0 ∧ c.shared.released.Perm (List.range c.shared.created)) := by
  have hinv : Invariant config c :=
    Machine.run_invariant (fun _ _ h => h.step) (invariant_start config)
      (Machine.along_true moves _) hrun
  exact ⟨hinv.sound, hinv.sound.quiet⟩

def smallSpool : SpoolConfig := ⟨2, 5, by decide⟩

/-- The first response is spooled and taken; what the second writes no longer fits
the budget. -/
def spooledAndRefused : List (Move Call Empty) :=
  [Move.call (Call.respond [.append [1] true, .append [2, 3] true, .append [4] true, .take]),
    .call (.respond [.append [7, 7, 7] true])] ++
    List.replicate 11 (Move.act 0 0) ++ List.replicate 4 (Move.act 1 0)

theorem spooledAndRefused_ends : ((machine smallSpool).run start spooledAndRefused).any (fun c =>
      c.shared.inUse == 4 && c.shared.bodies.map Body.read == [[1, 2, 3, 4]] &&
        c.shared.released == [1] && c.shared.created == 2) = true := by
  decide +kernel

theorem spool_sound_spooledAndRefused :
    ∃ c, (machine smallSpool).run start spooledAndRefused = some c ∧ c.shared.inUse = 4 ∧
      c.shared.bodies.map Body.read = [[1, 2, 3, 4]] ∧ c.shared.released = [1] ∧
      Sound smallSpool c := by
  obtain ⟨c, hrun, he⟩ := (Option.any_eq_true _ _).mp spooledAndRefused_ends
  simp only [Bool.and_eq_true, beq_iff_eq] at he
  obtain ⟨⟨⟨hin, hr⟩, hre⟩, -⟩ := he
  exact ⟨c, hrun, hin, hr, hre, (spool_sound hrun).1⟩

end OxPhp.Php.ResponseSpool
