import Mathlib.Data.List.Nodup
import Mathlib.Data.List.TakeWhile
import OxPhp.Lib.Runs

/-!
# Decorated calls

`oxphp_decorator_begin` and `oxphp_decorator_end` of `ext/oxphp_sapi.c`, with the
callbacks of `decorator/dispatch.rs`.  Hooks in PHP may themselves call decorated
functions, so the calls under way form a stack.
-/

namespace OxPhp.Decorator

/-- A decorated function. -/
abbrev FnId := Nat

/-- The two kinds of decorators. -/
inductive Kind where
  | rust
  | php
  deriving DecidableEq

/-- What `resolve` has found for each function, in the order of the attributes. -/
structure Registry where
  resolved : FnId → List Kind

namespace Registry

variable (r : Registry) (fn : FnId)

/-- How many Rust decorators a function has. -/
def rustCount : Nat := (r.resolved fn).count .rust

/-- How many PHP decorators it has. -/
def phpDecoratorCount : Nat := (r.resolved fn).count .php

end Registry

/-- A decorator of a function, by its place among those of its kind. -/
inductive Attached where
  | rust (i : Nat)
  | php (i : Nat)
  deriving DecidableEq

/-- What happens to the decorators of a call: a begin hook completes, an end hook is
called. -/
inductive Hook where
  | completed (d : Attached)
  | ended (d : Attached)
  deriving DecidableEq

/-- A slot of the context stack. -/
structure Ctx where
  fnId : FnId
  decoratorCount : Nat

/-- The class of a PHP decorator. -/
inductive ClassEntry where
  | missing
  | withoutConstructor
  | withConstructor
  deriving DecidableEq

/-- The PHP code that runs in a call: a constructor, a hook, or the function. -/
inductive Phase where
  | constructing (i : Nat)
  | before (i : Nat)
  | cleaning (j : Nat)
  /-- An exception may have been put on the frame before its first opcode. -/
  | body (forced : Bool)
  | after (j : Nat)
  deriving DecidableEq

/-- A decorated call under way. -/
structure Frame where
  fn : FnId
  /-- The slot the begin observer was given. -/
  dctx : Nat
  classes : Nat → ClassEntry
  phase : Phase
  /-- What has happened so far.  The code does not keep this. -/
  hooks : List Hook

/-- The calls under way and the globals of the extension. -/
structure State where
  frames : List Frame
  depth : Nat
  slots : Nat → Ctx
  /-- `decorator_instance_cache_ht` -/
  cache : FnId → Nat → Bool
  exception : Bool
  closed : List (List Hook)

/-- No call under way. -/
def start : State := ⟨[], 0, fun _ => ⟨0, 0⟩, fun _ _ => false, false, []⟩

/-- `OXPHP_DECORATOR_CTX_STACK_MAX`. -/
def ctxStackMax : Nat := 256

namespace State

/-- PHP code runs in a call. -/
def enter (s : State) (f : Frame) : State := { s with frames := f :: s.frames }

/-- The instance of a decorator is cached. -/
def insertInstance (s : State) (fn : FnId) (i : Nat) : State :=
  { s with cache := Function.update s.cache fn (Function.update (s.cache fn) i true) }

/-- One more decorator of a call has begun. -/
def countOne (s : State) (dctx : Nat) : State :=
  { s with
    slots := Function.update s.slots dctx
      { s.slots dctx with decoratorCount := (s.slots dctx).decoratorCount + 1 } }

/-- The call is over. -/
def leave (s : State) (f : Frame) : State :=
  { s with depth := s.depth - 1, closed := f.hooks :: s.closed }

end State

section Observers

variable (r : Registry)

/-! ## The begin observer -/

/-- The cleanup after a `before()` that threw: `after()` of those before it, with the
exception put aside, and the exception back on the frame. -/
def cleanupFrom : Nat → Frame → State → State
  | 0, f, s => { s with exception := true }.enter { f with phase := .body true }
  | j + 1, f, s =>
    if j < r.phpDecoratorCount f.fn ∧ s.cache f.fn j then
      { s with exception := false }.enter
        { f with phase := .cleaning j, hooks := f.hooks ++ [Hook.ended (.php j)] }
    else cleanupFrom j f s

/-- `before()` of a decorator that has an instance. -/
def callBefore (i : Nat) (f : Frame) (s : State) : State :=
  if s.exception then cleanupFrom r (s.slots f.dctx).decoratorCount f s
  else s.enter { f with phase := .before i }

/-- The loop over the PHP decorators, from the `i`th on.  One without an instance is
passed over. -/
def beforeFrom : Nat → Nat → Frame → State → State
  | 0, _, f, s => s.enter { f with phase := .body s.exception }
  | left + 1, i, f, s =>
    if s.cache f.fn i then callBefore r i f s
    else
      match f.classes i with
      | .missing => beforeFrom left (i + 1) f s
      | .withoutConstructor => callBefore r i f (s.insertInstance f.fn i)
      | .withConstructor =>
        if s.exception then beforeFrom left (i + 1) f s
        else s.enter { f with phase := .constructing i }

/-- `oxphp_decorator_begin`.  `rejects` is what `on_begin` of the Rust decorators
answers. -/
def decoratorBegin (fn : FnId) (rejects : Nat → Bool) (classes : Nat → ClassEntry) (s : State) :
    State :=
  let idx := s.depth
  let s := { s with depth := s.depth + 1 }
  let f : Frame := ⟨fn, idx, classes, .body true, []⟩
  if ctxStackMax ≤ idx then { s with exception := true }.enter f
  else
    let s := { s with slots := Function.update s.slots idx ⟨fn, 0⟩ }
    let begun := (List.range (r.rustCount fn)).takeWhile fun i => !rejects i
    let f := { f with hooks := begun.map fun i => .completed (.rust i) }
    if begun.length < r.rustCount fn then { s with exception := true }.enter f
    else beforeFrom r (r.phpDecoratorCount fn) 0 f s

/-! ## The end observer -/

/-- The loop over the PHP decorators: `after()` in reverse order, up to an
exception. -/
def afterFrom : Nat → Frame → State → State
  | 0, f, s => s.leave f
  | j + 1, f, s =>
    if j < r.phpDecoratorCount f.fn ∧ s.cache f.fn j then
      if s.exception then s.leave f
      else s.enter { f with phase := .after j, hooks := f.hooks ++ [Hook.ended (.php j)] }
    else afterFrom j f s

/-- `oxphp_decorator_end`: `end_callback` for all Rust decorators of the function,
then the PHP decorators. -/
def decoratorEnd (f : Frame) (s : State) : State :=
  if s.depth = 0 ∨ ctxStackMax < s.depth then s.leave f
  else
    let dctx := s.slots (s.depth - 1)
    let ends := (List.range (r.rustCount dctx.fnId)).reverse.map fun i => Hook.ended (.rust i)
    afterFrom r dctx.decoratorCount { f with hooks := f.hooks ++ ends } s

/-! ## The engine -/

/-- What the engine does: a call, a catch, the end of a piece of PHP code. -/
inductive Event where
  | call (fn : FnId) (rejects : Nat → Bool) (classes : Nat → ClassEntry)
  | caught
  | finish (throws : Bool)

/-- The observer goes on where PHP code has ended. -/
def resume (throws : Bool) (f : Frame) (s : State) : State :=
  match f.phase with
  | .constructing i =>
    if throws then beforeFrom r (r.phpDecoratorCount f.fn - (i + 1)) (i + 1) f s
    else callBefore r i f (s.insertInstance f.fn i)
  | .before i =>
    if throws then cleanupFrom r (s.slots f.dctx).decoratorCount f s
    else
      beforeFrom r (r.phpDecoratorCount f.fn - (i + 1)) (i + 1)
        { f with hooks := f.hooks ++ [Hook.completed (.php i)] } (s.countOne f.dctx)
  | .cleaning j => cleanupFrom r j f s
  | .body _ => decoratorEnd r f s
  | .after j => if throws then s.leave f else afterFrom r j f s

/-- One event. -/
def step (e : Event) (s : State) : Option State :=
  match e with
  | .call fn rejects classes =>
    if s.exception then none else some (decoratorBegin r fn rejects classes s)
  | .caught => some { s with exception := false }
  | .finish throws =>
    match s.frames with
    | [] => none
    | f :: rest =>
      if s.exception && !throws then none
      else some (resume r throws f { s with frames := rest, exception := throws })

/-- A sequence of events. -/
abbrev run (events : List Event) (s : State) : Option State := Runs.run (step r) events s

end Observers

/-! ## Pairing -/

/-- Every begin hook that completed has its end hook once, in reverse order, and no
other decorator has one. -/
def Paired (hooks : List Hook) : Prop :=
  ∃ ds : List Attached, ds.Nodup ∧ hooks = ds.map .completed ++ ds.reverse.map .ended

/-- The decorators of a call whose begin hooks completed. -/
def completedOf (hooks : List Hook) : List Attached :=
  hooks.filterMap fun
    | .completed d => some d
    | .ended _ => none

theorem completedOf_paired (ds es : List Attached) :
    completedOf (ds.map .completed ++ es.map .ended) = ds := by
  unfold completedOf
  rw [List.filterMap_append, List.filterMap_map, List.filterMap_map]
  simp

/-- Pairing can be checked. -/
theorem paired_iff (hooks : List Hook) : Paired hooks ↔ (completedOf hooks).Nodup ∧
      hooks = (completedOf hooks).map .completed ++ (completedOf hooks).reverse.map .ended := by
  constructor
  · rintro ⟨ds, hn, rfl⟩
    rw [completedOf_paired]
    exact ⟨hn, rfl⟩
  · rintro ⟨hn, heq⟩
    exact ⟨_, hn, heq⟩

instance (hooks : List Hook) : Decidable (Paired hooks) := decidable_of_iff' _ (paired_iff hooks)

/-- The first `n` Rust decorators. -/
def rustDecorators (n : Nat) : List Attached := (List.range n).map .rust

/-- The first `n` PHP decorators. -/
def phpDecorators (n : Nat) : List Attached := (List.range n).map .php

/-- `after()` of the decorators below `n`, down to the `j`th. -/
def endedDownTo (j n : Nat) : List Hook := ((phpDecorators n).drop j).reverse.map .ended

theorem nodup_rustDecorators (n : Nat) : (rustDecorators n).Nodup :=
  List.Nodup.map (fun _ _ h => Attached.rust.inj h) List.nodup_range

theorem nodup_phpDecorators (n : Nat) : (phpDecorators n).Nodup :=
  List.Nodup.map (fun _ _ h => Attached.php.inj h) List.nodup_range

theorem phpDecorators_succ (n : Nat) : phpDecorators (n + 1) = phpDecorators n ++ [.php n] := by
  simp [phpDecorators, List.range_succ]

theorem endedDownTo_self (n : Nat) : endedDownTo n n = [] := by
  simp [endedDownTo, phpDecorators]

/-- One more `after()`. -/
theorem endedDownTo_succ {j n : Nat} (h : j < n) :
    endedDownTo j n = endedDownTo (j + 1) n ++ [.ended (.php j)] := by
  have hlen : j < (phpDecorators n).length := by simpa [phpDecorators] using h
  have hget : (phpDecorators n)[j] = .php j := by simp [phpDecorators]
  unfold endedDownTo
  rw [List.drop_eq_getElem_cons hlen, hget, List.reverse_cons, List.map_append]
  rfl

theorem paired_rust (n : Nat) :
    Paired ((rustDecorators n).map .completed ++ (rustDecorators n).reverse.map .ended) :=
  ⟨rustDecorators n, nodup_rustDecorators n, rfl⟩

theorem paired_php (n : Nat) : Paired ((phpDecorators n).map .completed ++ endedDownTo 0 n) :=
  ⟨phpDecorators n, nodup_phpDecorators n, rfl⟩

theorem paired_nil : Paired [] := ⟨[], List.nodup_nil, rfl⟩

section Invariant

variable {r : Registry} {s s' : State} {k count : Nat} {f : Frame}

/-- All Rust decorators and `n` in PHP have begun. -/
def Registry.begun (r : Registry) (fn : FnId) (n : Nat) : List Hook :=
  (rustDecorators (r.rustCount fn)).map .completed ++ (phpDecorators n).map .completed

/-- What has happened in a call, by the code that runs in it; `count` is its
`decorator_count`. -/
def Registry.History (r : Registry) (fn : FnId) (count : Nat) (hooks : List Hook) : Phase → Prop
  | .constructing i => i = count ∧ i < r.phpDecoratorCount fn ∧ hooks = r.begun fn count
  | .before i => i = count ∧ i < r.phpDecoratorCount fn ∧ hooks = r.begun fn count
  | .cleaning j => j < count ∧ count < r.phpDecoratorCount fn ∧
      hooks = r.begun fn count ++ endedDownTo j count
  | .body false => count = r.phpDecoratorCount fn ∧ hooks = r.begun fn count
  | .body true => count < r.phpDecoratorCount fn ∧
      hooks = r.begun fn count ++ endedDownTo 0 count
  | .after j => j < count ∧ count = r.phpDecoratorCount fn ∧
      hooks = r.begun fn count ++ endedDownTo j count

/-- A call whose context has a slot of its own. -/
structure Slotted (r : Registry) (s : State) (k : Nat) (f : Frame) (count : Nat) : Prop where
  dctx : f.dctx = k
  slot : s.slots k = ⟨f.fn, count⟩
  unmixed : r.rustCount f.fn = 0 ∨ r.phpDecoratorCount f.fn = 0
  found : ∀ i < r.phpDecoratorCount f.fn, f.classes i ≠ .missing
  cached : ∀ i < count, s.cache f.fn i = true

/-- Such a call, with what has happened in it so far. -/
structure Tracked (r : Registry) (s : State) (k : Nat) (f : Frame) (count : Nat) : Prop
    extends Slotted r s k f count where
  -- `before()` runs on an instance
  instanced : ∀ i, f.phase = .before i → s.cache f.fn i = true
  history : r.History f.fn count f.hooks f.phase

/-- The `k`th call under way, or one beyond the stack, which has no hooks. -/
def FrameOk (r : Registry) (s : State) (k : Nat) (f : Frame) : Prop :=
  if k < ctxStackMax then ∃ count, Tracked r s k f count
  else f.phase = .body true ∧ f.hooks = []

/-- Lower frames see nothing of what the innermost one does. -/
structure Keeps (s s' : State) (k : Nat) : Prop where
  slots : ∀ i < k, s'.slots i = s.slots i
  cache : ∀ fn i, s.cache fn i = true → s'.cache fn i = true

variable {n j i : Nat} {rest : List Frame}

/-- A call is not touched by the calls inside it. -/
theorem Slotted.keep (h : Slotted r s k f count) (hs : Keeps s s' n) (hk : k < n) :
    Slotted r s' k f count :=
  { h with
    slot := (hs.slots k hk).trans h.slot
    cached := fun i hi => hs.cache _ _ (h.cached i hi) }

theorem FrameOk.keep (h : FrameOk r s k f) (hs : Keeps s s' n) (hk : k < n) : FrameOk r s' k f := by
  unfold FrameOk at h ⊢
  split
  · next hsl =>
    rw [if_pos hsl] at h
    obtain ⟨count, h⟩ := h
    exact ⟨count, h.toSlotted.keep hs hk, fun i hi => hs.cache _ _ (h.instanced i hi), h.history⟩
  · next hsl =>
    rw [if_neg hsl] at h
    exact h

theorem FrameOk.congr (h : FrameOk r s k f) (hs : s'.slots = s.slots)
    (hc : s'.cache = s.cache) : FrameOk r s' k f := by
  refine h.keep (n := k + 1) ⟨fun _ _ => by rw [hs], fun _ _ h => ?_⟩ (Nat.lt_succ_self k)
  rw [hc]
  exact h

/-- The invariant: every call under way is tracked, and every call left had its hooks in pairs. -/
structure Inv (r : Registry) (s : State) : Prop where
  depth : s.depth = s.frames.length
  frames : ∀ f rest, f :: rest <:+ s.frames → FrameOk r s rest.length f
  closed : ∀ hooks ∈ s.closed, Paired hooks

/-- The state below the innermost call. -/
structure Below (r : Registry) (s : State) : Prop where
  depth : s.depth = s.frames.length + 1
  frames : ∀ f rest, f :: rest <:+ s.frames → FrameOk r s rest.length f
  closed : ∀ hooks ∈ s.closed, Paired hooks

theorem Inv.below (h : Inv r s) (hf : s.frames = f :: rest)
    (exception : Bool) : Below r { s with frames := rest, exception } := by
  refine ⟨?_, ?_, h.closed⟩
  · rw [h.depth, hf]
    rfl
  · intro f' rest' hs
    have hok := h.frames f' rest' (by rw [hf]; exact hs.trans (List.suffix_cons f rest))
    exact hok.congr rfl rfl

theorem Below.enter (h : Below r s) (hf : FrameOk r s s.frames.length f) : Inv r (s.enter f) := by
  refine ⟨h.depth, ?_, h.closed⟩
  intro f' rest hs
  rcases List.suffix_cons_iff.mp hs with heq | hs
  · cases heq
    exact hf.congr rfl rfl
  · exact (h.frames f' rest hs).congr rfl rfl

theorem Below.leave (h : Below r s) (hf : Paired f.hooks) : Inv r (s.leave f) := by
  refine ⟨?_, ?_, ?_⟩
  · change s.depth - 1 = s.frames.length
    rw [h.depth]
    rfl
  · intro f' rest hs
    exact (h.frames f' rest hs).congr rfl rfl
  · intro hooks hh
    rcases List.mem_cons.mp hh with rfl | hh
    · exact hf
    · exact h.closed hooks hh

theorem Below.keep (h : Below r s) (hs : Keeps s s' s.frames.length)
    (hf : s'.frames = s.frames) (hd : s'.depth = s.depth)
    (hc : s'.closed = s.closed) : Below r s' := by
  refine ⟨?_, ?_, ?_⟩
  · rw [hd, hf]
    exact h.depth
  · intro f' rest hsu
    rw [hf] at hsu
    exact (h.frames f' rest hsu).keep hs (Nat.lt_of_succ_le hsu.length_le)
  · rw [hc]
    exact h.closed

/-! ### Steps -/

theorem Below.exception (h : Below r s) (exception : Bool) : Below r { s with exception } :=
  h.keep ⟨fun _ _ => rfl, fun _ _ h => h⟩ rfl rfl rfl

/-- A call with a slot goes on to its next piece of PHP code. -/
theorem Below.enterAt {phase : Phase} {hooks : List Hook} (hb : Below r s)
    (hk : s.frames.length < ctxStackMax) (hf : Slotted r s s.frames.length f count)
    (hh : r.History f.fn count hooks phase)
    (hin : ∀ i, phase = .before i → s.cache f.fn i = true := by exact nofun) :
    Inv r (s.enter { f with phase, hooks }) := by
  refine hb.enter ?_
  rw [FrameOk, if_pos hk]
  exact ⟨count, { hf with instanced := hin, history := hh }⟩

section Slotted

variable (hb : Below r s) (hk : s.frames.length < ctxStackMax)
  (hf : Slotted r s s.frames.length f count)

include hb hk hf

/-- The cleanup ends what has begun. -/
theorem cleanupFrom_inv (hj : j ≤ count) (hc : count < r.phpDecoratorCount f.fn)
    (hh : f.hooks = r.begun f.fn count ++ endedDownTo j count) : Inv r (cleanupFrom r j f s) := by
  cases j with
  | zero => exact (hb.exception true).enterAt hk { hf with } ⟨hc, hh⟩
  | succ j =>
    rw [cleanupFrom, if_pos ⟨Nat.lt_trans hj hc, hf.cached j hj⟩]
    refine (hb.exception false).enterAt hk { hf with } ⟨hj, hc, ?_⟩
    rw [hh, endedDownTo_succ hj, List.append_assoc]

/-- The end observer ends what has begun. -/
theorem afterFrom_inv (he : s.exception = false) (hj : j ≤ count)
    (hc : count = r.phpDecoratorCount f.fn) (hr : r.rustCount f.fn = 0)
    (hh : f.hooks = r.begun f.fn count ++ endedDownTo j count) : Inv r (afterFrom r j f s) := by
  cases j with
  | zero =>
    refine hb.leave ?_
    rw [hh, Registry.begun, hr]
    exact paired_php _
  | succ j =>
    rw [afterFrom, if_pos ⟨by omega, hf.cached j hj⟩, he, if_neg Bool.false_ne_true]
    refine hb.enterAt hk hf ⟨hj, hc, ?_⟩
    rw [hh, endedDownTo_succ hj, List.append_assoc]

/-- `before()` runs when all decorators before it have begun. -/
theorem callBefore_inv (he : s.exception = false) (hi : i = count)
    (hlt : i < r.phpDecoratorCount f.fn) (hin : s.cache f.fn i = true)
    (hh : f.hooks = r.begun f.fn count) : Inv r (callBefore r i f s) := by
  rw [callBefore, he, if_neg Bool.false_ne_true]
  refine hb.enterAt hk hf ⟨hi, hlt, hh⟩ ?_
  rintro i' ⟨⟩
  exact hin

omit hb hk hf in
theorem keeps_insertInstance (s : State) (fn : FnId) (i n : Nat) :
    Keeps s (s.insertInstance fn i) n := by
  refine ⟨fun _ _ => rfl, fun fn' i' h => ?_⟩
  change Function.update s.cache fn (Function.update (s.cache fn) i true) fn' i' = true
  by_cases hfn : fn' = fn
  · subst hfn
    rw [Function.update_self]
    by_cases hi : i' = i
    · rw [hi, Function.update_self]
    · rw [Function.update_of_ne hi]
      exact h
  · rw [Function.update_of_ne hfn]
    exact h

theorem insertInstance_inv (he : s.exception = false) (hi : i = count)
    (hlt : i < r.phpDecoratorCount f.fn) (hh : f.hooks = r.begun f.fn count) :
    Inv r (callBefore r i f (s.insertInstance f.fn i)) := by
  have hke := keeps_insertInstance s f.fn i
  refine callBefore_inv (hb.keep (hke _) rfl rfl rfl) hk
    (hf.keep (hke _) (Nat.lt_succ_self _)) he hi hlt ?_ hh
  change Function.update s.cache f.fn (Function.update (s.cache f.fn) i true) f.fn i = true
  rw [Function.update_self, Function.update_self]

/-- The loop of the begin observer keeps the invariant. -/
theorem beforeFrom_inv {left : Nat} (he : s.exception = false) (hi : i = count)
    (hl : i + left = r.phpDecoratorCount f.fn) (hh : f.hooks = r.begun f.fn count) :
    Inv r (beforeFrom r left i f s) := by
  cases left with
  | zero =>
    rw [beforeFrom, he]
    exact hb.enterAt hk hf ⟨hi ▸ hl, hh⟩
  | succ left =>
    have hlt : i < r.phpDecoratorCount f.fn := by omega
    rw [beforeFrom]
    split
    · next hc => exact callBefore_inv hb hk hf he hi hlt hc hh
    · cases hcl : f.classes i with
      | missing => exact absurd hcl (hf.found i hlt)
      | withoutConstructor => exact insertInstance_inv hb hk hf he hi hlt hh
      | withConstructor =>
        dsimp only
        rw [he, if_neg Bool.false_ne_true]
        exact hb.enterAt hk hf ⟨hi, hlt, hh⟩

omit hb hk hf in
theorem keeps_countOne (s : State) (k : Nat) : Keeps s (s.countOne k) k :=
  ⟨fun _ hi => Function.update_of_ne (Nat.ne_of_lt hi) _ _, fun _ _ h => h⟩

/-- A `before()` has returned: one more decorator has begun. -/
theorem countOne_inv (he : s.exception = false) (hlt : count < r.phpDecoratorCount f.fn)
    (hin : s.cache f.fn count = true) (hh : f.hooks = r.begun f.fn count) :
    Inv r (beforeFrom r (r.phpDecoratorCount f.fn - (count + 1)) (count + 1)
      { f with hooks := f.hooks ++ [Hook.completed (.php count)] } (s.countOne f.dctx)) := by
  have hd := hf.dctx
  have hc (hooks : List Hook) : Slotted r (s.countOne f.dctx) s.frames.length { f with hooks }
      (count + 1) := by
    refine ⟨hd, ?_, hf.unmixed, hf.found, fun i hi => ?_⟩
    · rw [hd]
      refine (Function.update_self ..).trans ?_
      dsimp only
      rw [hf.slot]
    · rcases Nat.lt_succ_iff_lt_or_eq.mp hi with hi | rfl
      · exact hf.cached i hi
      · exact hin
  have hke : Keeps s (s.countOne f.dctx) s.frames.length := hd ▸ keeps_countOne s f.dctx
  refine beforeFrom_inv (hb.keep hke rfl rfl rfl) hk (hc _) he rfl (by dsimp only; omega) ?_
  dsimp only
  rw [hh]
  simp [Registry.begun, phpDecorators_succ]

end Slotted

/-- The end observer pairs the hooks of a call that ends as it should. -/
theorem decoratorEnd_inv {forced : Bool} (hb : Below r s) (hk : s.frames.length < ctxStackMax)
    (hf : Tracked r s s.frames.length f count) (hp : f.phase = .body forced)
    (hpr : count ≠ 0 → s.exception = forced) : Inv r (decoratorEnd r f s) := by
  have hd := hb.depth
  have hs := hf.toSlotted
  have hh := hf.history
  rw [decoratorEnd, if_neg (by omega), hd, Nat.add_sub_cancel]
  dsimp only
  rw [hf.slot]
  rw [hp] at hh
  cases forced with
  | false =>
    obtain ⟨hc, hho⟩ := hh
    by_cases hn : r.phpDecoratorCount f.fn = 0
    · rw [hn] at hc
      rw [hc] at hho ⊢
      refine hb.leave ?_
      have hpa := paired_rust (r.rustCount f.fn)
      simp only [hho, Registry.begun, phpDecorators, rustDecorators, List.range_zero,
        List.map_nil, List.append_nil, List.map_map, ← List.map_reverse] at hpa ⊢
      exact hpa
    · have hr := hf.unmixed.resolve_right hn
      have he := hpr (by rw [hc]; exact hn)
      rw [hr]
      refine afterFrom_inv hb hk { hs with } he (Nat.le_refl _) hc hr ?_
      rw [endedDownTo_self]
      change f.hooks ++ [] = _
      rw [hho]
  | true =>
    obtain ⟨hc, hho⟩ := hh
    have hr := hf.unmixed.resolve_right (by omega)
    have hpa : Paired (f.hooks ++ []) := by
      rw [List.append_nil, hho, Registry.begun, hr]
      exact paired_php _
    rw [hr]
    cases count with
    | zero => exact hb.leave hpa
    | succ j =>
      have he := hpr (Nat.succ_ne_zero j)
      have hlt : j < j + 1 := Nat.lt_succ_self j
      rw [afterFrom, if_pos ⟨Nat.lt_trans hlt hc, hf.cached j hlt⟩, he, if_pos rfl]
      exact hb.leave hpa

/-- What a run has to keep to.  No `on_begin` rejects, every class of a PHP decorator
has an instance, and no function has decorators of both kinds.  No `after()`
throws.  A function whose PHP decorators have begun does not throw, and one whose
begin was broken off by a `before()`, with others completed, does not catch that. -/
def Proper (r : Registry) (s : State) : Event → Prop
  | .call fn rejects classes =>
    (∀ i < r.rustCount fn, rejects i = false) ∧
      (∀ i < r.phpDecoratorCount fn, classes i ≠ .missing) ∧
      (r.rustCount fn = 0 ∨ r.phpDecoratorCount fn = 0)
  | .caught => True
  | .finish throws => ∀ f rest, s.frames = f :: rest →
      match f.phase with
      | .constructing _ => throws = false
      | .before _ => True
      | .cleaning _ => True
      | .body forced => f.dctx < ctxStackMax → (s.slots f.dctx).decoratorCount ≠ 0 → throws = forced
      | .after _ => throws = false

/-- The begin observer starts a tracked call. -/
theorem decoratorBegin_inv {fn : FnId} {rejects : Nat → Bool} {classes : Nat → ClassEntry}
    (h : Inv r s) (he : s.exception = false) (hp : Proper r s (.call fn rejects classes)) :
    Inv r (decoratorBegin r fn rejects classes s) := by
  obtain ⟨hr, hf, hu⟩ := hp
  have hb : Below r { s with depth := s.depth + 1 } := by
    refine ⟨by rw [h.depth], ?_, h.closed⟩
    intro f' rest hs
    exact (h.frames f' rest hs).congr rfl rfl
  rw [decoratorBegin]
  dsimp only
  split
  · next ho =>
    refine (hb.exception true).enter ?_
    rw [h.depth] at ho
    rw [FrameOk, if_neg (Nat.not_lt.mpr ho)]
    exact ⟨rfl, rfl⟩
  · next hfi =>
    have hall : (List.range (r.rustCount fn)).takeWhile (fun i => !rejects i) =
        List.range (r.rustCount fn) := by
      refine List.takeWhile_eq_self_iff.mpr fun i hi => ?_
      rw [hr i (List.mem_range.mp hi)]
      rfl
    rw [hall, if_neg (by rw [List.length_range]; exact Nat.lt_irrefl _)]
    have hk : s.frames.length < ctxStackMax := by
      rw [h.depth] at hfi
      exact Nat.lt_of_not_le hfi
    have hslot : Function.update s.slots s.depth ⟨fn, 0⟩ s.frames.length = (⟨fn, 0⟩ : Ctx) := by
      rw [h.depth, Function.update_self]
    have hke : Keeps { s with depth := s.depth + 1 }
        { s with depth := s.depth + 1, slots := Function.update s.slots s.depth ⟨fn, 0⟩ }
        s.frames.length := by
      refine ⟨fun i hi => Function.update_of_ne ?_ _ _, fun _ _ h => h⟩
      rw [h.depth]
      exact Nat.ne_of_lt hi
    have hsl : ∀ hooks, Slotted r
        { s with depth := s.depth + 1, slots := Function.update s.slots s.depth ⟨fn, 0⟩ }
        s.frames.length ⟨fn, s.depth, classes, .body true, hooks⟩ 0 := fun hooks =>
      ⟨h.depth, hslot, hu, hf, fun i hi => absurd hi (Nat.not_lt_zero i)⟩
    refine beforeFrom_inv (hb.keep hke rfl rfl rfl) hk (hsl _) he rfl
      (Nat.zero_add _) ?_
    simp [Registry.begun, rustDecorators, phpDecorators]

/-- Whatever PHP code ends, the observer goes on properly. -/
theorem resume_inv {throws : Bool} (h : Inv r s)
    (hf : s.frames = f :: rest) (hp : Proper r s (.finish throws)) :
    Inv r (resume r throws f { s with frames := rest, exception := throws }) := by
  have hb := h.below hf throws
  have hok := h.frames f rest (hf ▸ List.suffix_refl _)
  have hp := hp f rest hf
  rw [FrameOk] at hok
  split at hok
  · next hk =>
    obtain ⟨count, hok⟩ := hok
    have hs : Slotted r { s with frames := rest, exception := throws } rest.length f count :=
      { hok.toSlotted with }
    have hh := hok.history
    have hd := hok.dctx
    have hsl := hok.slot
    rw [resume]
    split
    · next i hph =>
      rw [hph] at hh hp
      obtain ⟨hi, hlt, hho⟩ := hh
      obtain rfl : throws = false := hp
      rw [if_neg Bool.false_ne_true]
      exact insertInstance_inv hb hk hs rfl hi hlt hho
    · next i hph =>
      rw [hph] at hh
      obtain ⟨rfl, hlt, hho⟩ := hh
      cases throws with
      | true =>
        rw [if_pos rfl, hd]
        dsimp only
        rw [hsl]
        refine cleanupFrom_inv hb hk hs (Nat.le_refl _) hlt ?_
        rw [endedDownTo_self, List.append_nil]
        exact hho
      | false =>
        rw [if_neg Bool.false_ne_true]
        exact countOne_inv hb hk hs rfl hlt (hok.instanced i hph) hho
    · next j hph =>
      rw [hph] at hh
      obtain ⟨hj, hco, hho⟩ := hh
      exact cleanupFrom_inv hb hk hs (Nat.le_of_lt hj) hco hho
    · next forced hph =>
      rw [hph] at hp
      refine decoratorEnd_inv hb hk
        { hs with instanced := hok.instanced, history := hh } hph fun hco => ?_
      refine hp (by rw [hd]; exact hk) ?_
      rw [hd, hsl]
      exact hco
    · next j hph =>
      rw [hph] at hh hp
      obtain ⟨hj, hco, hho⟩ := hh
      obtain rfl : throws = false := hp
      rw [if_neg Bool.false_ne_true]
      have hr := hok.unmixed.resolve_right (by omega)
      exact afterFrom_inv hb hk hs rfl (Nat.le_of_lt hj) hco hr hho
  · next hk =>
    obtain ⟨hph, hho⟩ := hok
    rw [resume, hph]
    dsimp only
    have hde : ctxStackMax < s.depth := by
      rw [h.depth, hf, List.length_cons]
      omega
    rw [decoratorEnd, if_pos (.inr hde)]
    refine hb.leave ?_
    rw [hho]
    exact paired_nil

/-- **Every proper event keeps the invariant.** -/
theorem Inv.step {e : Event} (h : Inv r s) (hp : Proper r s e)
    (hs : step r e s = some s') : Inv r s' := by
  cases e with
  | call fn rejects classes =>
    simp only [Decorator.step, Option.ite_none_left_eq_some] at hs
    obtain ⟨he, hout⟩ := hs
    cases hout
    exact decoratorBegin_inv h (by simpa using he) hp
  | caught =>
    cases hs
    refine ⟨h.depth, fun f rest hsu => ?_, h.closed⟩
    exact (h.frames f rest hsu).congr rfl rfl
  | finish throws =>
    cases hf : s.frames with
    | nil =>
      simp only [Decorator.step, hf] at hs
      cases hs
    | cons f rest =>
      simp only [Decorator.step, hf, Option.ite_none_left_eq_some] at hs
      obtain ⟨-, hout⟩ := hs
      cases hout
      exact resume_inv h hf hp

end Invariant

/-- Every step of a run is proper. -/
abbrev ProperRun (r : Registry) (events : List Event) (s : State) : Prop :=
  Runs.Along (step r) (fun e s => Proper r s e) events s

/-- **Hooks come in pairs.**  In every run whose steps are all proper, nested calls
included, every call that has been left had its hooks in pairs. -/
theorem hooks_paired (r : Registry) (events : List Event) (s : State)
    (hproper : ProperRun r events start) (hrun : run r events start = some s) :
    ∀ hooks ∈ s.closed, Paired hooks := by
  have hstart : Inv r start := by
    refine ⟨rfl, fun f rest hsu => ?_, nofun⟩
    cases List.suffix_nil.mp hsu
  exact (Runs.run_invariant_along (fun _ _ _ h hp hs => h.step hp hs) hstart hproper hrun).closed

/-! ### Runs that are not proper -/

/-- Function 0 has a Rust decorator, function 1 two in PHP, function 2 one of each,
function 3 two in Rust. -/
def sample : Registry :=
  ⟨fun
    | 0 => [.rust]
    | 1 => [.php, .php]
    | 2 => [.rust, .php]
    | 3 => [.rust, .rust]
    | _ => []⟩

/-- A call that no `on_begin` rejects, of classes without a constructor. -/
def plainCall (fn : FnId) : Event := .call fn (fun _ => false) fun _ => .withoutConstructor

theorem proper_finish {r : Registry} {s : State} {f : Frame} {rest : List Frame} {throws : Bool}
    (hf : s.frames = f :: rest) (hp : f.phase = .before 0 ∨ f.phase = .before 1 ∨
      throws = false ∧ (f.phase = .body false ∨ f.phase = .after 0 ∨ f.phase = .after 1)) :
    Proper r s (.finish throws) := by
  intro f' rest' hf'
  cases hf.symm.trans hf'
  rcases hp with hp | hp | ⟨rfl, hp | hp | hp⟩
  · rw [hp]
    trivial
  · rw [hp]
    trivial
  · rw [hp]
    exact fun _ _ => rfl
  · rw [hp]
  · rw [hp]

/-- Function 1, whose hooks all return, calls function 0. -/
def nestedCall : List Event :=
  [plainCall 1, .finish false, .finish false, plainCall 0, .finish false, .finish false,
    .finish false, .finish false]

theorem hooks_paired_nestedCall : ∃ s, run sample nestedCall start = some s ∧
    s.closed.length = 2 ∧ ∀ hooks ∈ s.closed, Paired hooks := by
  have hp : ProperRun sample nestedCall start := by
    refine Runs.along_cons ⟨fun _ _ => rfl, fun _ _ => nofun, .inl rfl⟩ rfl ?_
    refine Runs.along_cons (proper_finish rfl (.inl rfl)) rfl ?_
    refine Runs.along_cons (proper_finish rfl (.inr (.inl rfl))) rfl ?_
    refine Runs.along_cons ⟨fun _ _ => rfl, fun _ _ => nofun, .inr rfl⟩ rfl ?_
    refine Runs.along_cons (proper_finish rfl (.inr (.inr ⟨rfl, .inl rfl⟩))) rfl ?_
    refine Runs.along_cons (proper_finish rfl (.inr (.inr ⟨rfl, .inl rfl⟩))) rfl ?_
    refine Runs.along_cons (proper_finish rfl (.inr (.inr ⟨rfl, .inr (.inr rfl)⟩))) rfl ?_
    exact Runs.along_cons (proper_finish rfl (.inr (.inr ⟨rfl, .inr (.inl rfl)⟩))) rfl trivial
  exact ⟨_, rfl, rfl, hooks_paired sample nestedCall _ hp rfl⟩

/-- Four calls whose hooks do not pair: an `on_begin` that rejects has its `on_end`
called; `after()` is not called when the function throws; it is called twice when
the function catches what a later `before()` has thrown; and with decorators of
both kinds the order is not the reverse. -/
theorem hooks_unpaired :
    (run sample [.call 3 (fun i => i == 1) fun _ => .missing, .finish true] start).map (·.closed) =
        some [[.completed (.rust 0), .ended (.rust 1), .ended (.rust 0)]] ∧
      ¬Paired [.completed (.rust 0), .ended (.rust 1), .ended (.rust 0)] ∧
      (run sample [plainCall 1, .finish false, .finish false, .finish true] start).map (·.closed) =
        some [[.completed (.php 0), .completed (.php 1)]] ∧
      ¬Paired [.completed (.php 0), .completed (.php 1)] ∧
      (run sample [plainCall 1, .finish false, .finish true, .finish false, .caught, .finish false,
          .finish false] start).map (·.closed) =
        some [[.completed (.php 0), .ended (.php 0), .ended (.php 0)]] ∧
      ¬Paired [.completed (.php 0), .ended (.php 0), .ended (.php 0)] ∧
      (run sample [plainCall 2, .finish false, .finish false, .finish false] start).map (·.closed) =
        some [[.completed (.rust 0), .completed (.php 0), .ended (.rust 0), .ended (.php 0)]] ∧
      ¬Paired [.completed (.rust 0), .completed (.php 0), .ended (.rust 0), .ended (.php 0)] :=
  ⟨rfl, by decide, rfl, by decide, rfl, by decide, rfl, by decide⟩

end OxPhp.Decorator
