import OxPhp.Lib.ByteStr

/-!
# Readers of binary formats

A reader takes a value off the front of a byte string or fails.  A reader of
nested values is given as a step, with the reader of the values one level down
as its argument; since every level takes at least one byte, a depth above the
length of the input is never reached.
-/

namespace Wire

open ByteStr

abbrev Reader (ε α : Type) := StateT Bytes (Except ε) α

section Primitives

variable {ε : Type} (e : ε)

def byte : Reader ε UInt8 := fun
  | [] => .error e
  | b :: rest => .ok (b, rest)

def take (n : Nat) : Reader ε Bytes := fun s =>
  if s.length < n then .error e else .ok (s.take n, s.drop n)

def leNat : Bytes → Nat
  | [] => 0
  | b :: rest => b.toNat + 256 * leNat rest

def le (width : Nat) : Reader ε Nat := do
  let s ← take e width
  return leNat s

end Primitives

section Rules

variable {ε α β : Type} {e : ε} {x : Reader ε α} {f g : α → Reader ε β} {a : α} {b : β}
  {s rest : Bytes} {n : Nat}

theorem bind_ok (h : x s = .ok (a, rest)) : (x >>= f) s = f a rest := by
  change (x s >>= fun p => f p.1 p.2) = _
  rw [h]
  rfl

theorem bind_error {e' : ε} (h : x s = .error e') : (x >>= f) s = .error e' := by
  change (x s >>= fun p => f p.1 p.2) = _
  rw [h]
  rfl

theorem bind_inv (h : (x >>= f) s = .ok (b, rest)) :
    ∃ a mid, x s = .ok (a, mid) ∧ f a mid = .ok (b, rest) := by
  change (x s >>= fun p => f p.1 p.2) = _ at h
  cases hx : x s with
  | error e =>
    rw [hx] at h
    cases h
  | ok p =>
    rw [hx] at h
    exact ⟨p.1, p.2, rfl, h⟩

theorem pure_inv {a' : α} (h : (pure a : Reader ε α) s = .ok (a', rest)) : a = a' ∧ s = rest := by
  cases h
  exact ⟨rfl, rfl⟩

theorem byte_cons (b : UInt8) (rest : Bytes) : byte e (b :: rest) = .ok (b, rest) := rfl

theorem take_append (h : s.length = n) : take e n (s ++ rest) = .ok (s, rest) := by
  subst h
  simp [take]

theorem take_inv {taken : Bytes} (h : take e n s = .ok (taken, rest)) :
    taken.length = n ∧ s = taken ++ rest := by
  unfold take at h
  split at h
  · cases h
  · next hlen =>
    cases h
    exact ⟨by simp; omega, (List.take_append_drop n s).symm⟩

theorem le_append (h : s.length = n) : le e n (s ++ rest) = .ok (leNat s, rest) :=
  bind_ok (take_append h)

theorem leNat_lt (s : Bytes) : leNat s < 256 ^ s.length := by
  induction s with
  | nil => decide
  | cons b s ih =>
    have hb : b.toNat < 256 := b.toNat_lt
    rw [leNat, List.length_cons, Nat.pow_succ]
    omega

theorem le_inv {m : Nat} (h : le e n s = .ok (m, rest)) : m < 256 ^ n := by
  obtain ⟨taken, mid, ht, hp⟩ := bind_inv h
  obtain ⟨rfl, -⟩ := pure_inv hp
  exact (take_inv ht).1 ▸ leNat_lt taken

end Rules

/-! ## Two readers of one format -/

section Matches

variable {ε α β γ δ : Type} {P : ε → Prop} {R : α → β → Prop} {S : γ → δ → Prop} {e : ε} {n : Nat}
  {x : Reader ε α} {y : Reader ε β} {f : α → Reader ε γ} {g : β → Reader ε δ}

/-- On inputs shorter than `n` the readers fail together, with the same error out of `P`;
otherwise they take the same bytes and give related values. -/
def Matches (n : Nat) (P : ε → Prop) (R : α → β → Prop) (x : Reader ε α) (y : Reader ε β) : Prop :=
  ∀ s : Bytes, s.length < n → (∃ e, P e ∧ x s = .error e ∧ y s = .error e) ∨
    ∃ a b rest, x s = .ok (a, rest) ∧ y s = .ok (b, rest) ∧ rest.length ≤ s.length ∧ R a b

theorem Matches.mono {m : Nat} (h : Matches n P R x y) (hm : m ≤ n) : Matches m P R x y :=
  fun s hs => h s (Nat.lt_of_lt_of_le hs hm)

theorem Matches.eq {y : Reader ε α} {s : Bytes} (h : Matches n P Eq x y) (hs : s.length < n) :
    x s = y s := by
  rcases h s hs with ⟨e, -, hx, hy⟩ | ⟨a, b, rest, hx, hy, -, rfl⟩
  · exact hx.trans hy.symm
  · exact hx.trans hy.symm

theorem Matches.pure {a : α} {b : β} (h : R a b) :
    Matches n P R (Pure.pure a : Reader ε α) (Pure.pure b) :=
  fun s _ => .inr ⟨a, b, s, rfl, rfl, Nat.le_refl _, h⟩

theorem Matches.throw (h : P e) (hx : x = throw e) (hy : y = throw e) : Matches n P R x y := by
  subst hx hy
  exact fun _ _ => .inl ⟨e, h, rfl, rfl⟩

theorem Matches.bind (h : Matches n P R x y) (hr : ∀ a b, R a b → Matches n P S (f a) (g b)) :
    Matches n P S (x >>= f) (y >>= g) := by
  intro s hs
  rcases h s hs with ⟨e, he, hx, hy⟩ | ⟨a, b, mid, hx, hy, hmid, hab⟩
  · exact .inl ⟨e, he, bind_error hx, bind_error hy⟩
  · rw [bind_ok hx, bind_ok hy]
    rcases hr a b hab mid (Nat.lt_of_le_of_lt hmid hs) with h | ⟨c, d, rest, hf, hg, hrest, hcd⟩
    · exact .inl h
    · exact .inr ⟨c, d, rest, hf, hg, hrest.trans hmid, hcd⟩

/-- The two begin with one reader. -/
theorem Matches.same {g : α → Reader ε δ} (h : Matches n P Eq x x)
    (hr : ∀ a, Matches n P S (f a) (g a)) : Matches n P S (x >>= f) (x >>= g) :=
  h.bind fun a _ hab => hab ▸ hr a

/-- A byte read first leaves a shorter input to what follows. -/
theorem Matches.byte {f : UInt8 → Reader ε γ} {g : UInt8 → Reader ε δ} (he : P e)
    (h : ∀ b, Matches n P S (f b) (g b)) : Matches (n + 1) P S (byte e >>= f) (byte e >>= g) := by
  intro s hs
  cases s with
  | nil => exact .inl ⟨e, he, rfl, rfl⟩
  | cons b rest =>
    rw [bind_ok (byte_cons b rest), bind_ok (byte_cons b rest)]
    refine (h b rest (Nat.lt_of_succ_lt_succ hs)).imp_right ?_
    rintro ⟨c, d, mid, hf, hg, hmid, hcd⟩
    exact ⟨c, d, mid, hf, hg, Nat.le_succ_of_le hmid, hcd⟩

theorem matches_take (he : P e) (k : Nat) : Matches n P Eq (take e k) (take e k) := by
  intro s _
  unfold take
  split
  · exact .inl ⟨e, he, rfl, rfl⟩
  · exact .inr ⟨_, _, _, rfl, rfl, by simp, rfl⟩

theorem matches_le (he : P e) (k : Nat) : Matches n P Eq (le e k) (le e k) :=
  (matches_take he k).same fun _ => .pure rfl

end Matches

/-! ## Nested values -/

/-- The values down to a depth; below it the reader fails. -/
def nested {ε α : Type} (e : ε) (step : Reader ε α → Reader ε α) : Nat → Reader ε α
  | 0 => fun _ => .error e
  | depth + 1 => step (nested e step depth)

section Nested

variable {ε α : Type} {e : ε} {step : Reader ε α → Reader ε α}

/-- Where a step reads a byte before the level below it, the bounds on the nesting do not matter
to inputs shorter than both. -/
theorem matches_nested {β : Type} {step' : Reader ε β → Reader ε β} {P : ε → Prop}
    {R : α → β → Prop}
    (hs : ∀ n x y, Matches n P R x y → Matches (n + 1) P R (step x) (step' y))
    (depth depth' : Nat) :
    Matches (min depth depth') P R (nested e step depth) (nested e step' depth') := by
  induction depth generalizing depth' with
  | zero => simp [Matches]
  | succ depth ih =>
    cases depth' with
    | zero => simp [Matches]
    | succ depth' =>
      rw [Nat.succ_min_succ]
      exact hs _ _ _ (ih depth')

/-- Whatever follows, the reader takes the value off these bytes. -/
def Reads (read : Nat → Reader ε α) (wire : Bytes) (a : α) : Prop :=
  ∀ depth rest, (wire ++ rest).length < depth → read depth (wire ++ rest) = .ok (a, rest)

theorem Reads.of_step {wire : Bytes} {a : α} (h : ∀ depth rest, (wire ++ rest).length ≤ depth →
      step (nested e step depth) (wire ++ rest) = .ok (a, rest)) :
    Reads (nested e step) wire a := by
  intro depth rest hd
  cases depth with
  | zero => omega
  | succ depth => exact h depth rest (Nat.le_of_lt_succ hd)

end Nested

end Wire
