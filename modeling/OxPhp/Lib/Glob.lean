import OxPhp.Lib.ByteStr

/-!
# Globs over bytes

Globs of literals, `?`, `*`, `**` and byte classes, matched exactly or with the
case of ASCII letters folded; a separator is matched by itself and `**` alone.
The members of a class are folded before it is negated, so folding widens a glob
as long as no negated class names a letter.
-/

namespace Glob

open ByteStr

def backslash : UInt8 := 92
def bracket : UInt8 := 91
def closeBracket : UInt8 := 93
def dash : UInt8 := 45
def star : UInt8 := 42

/-! ## Classes -/

structure ByteClass where
  negated : Bool
  ranges : List (UInt8 × UInt8)
  deriving DecidableEq

def inRanges (ranges : List (UInt8 × UInt8)) (b : UInt8) : Bool :=
  ranges.any fun r => r.1 ≤ b && b ≤ r.2

def toAsciiUpper (b : UInt8) : UInt8 := if isAsciiLower b then b - 32 else b

def isLetter (b : UInt8) : Bool := isAsciiLower b || isAsciiUpper b

/-- Whether the byte, or with `fold` either case of it, is in the ranges. -/
def named (fold : Bool) (ranges : List (UInt8 × UInt8)) (b : UInt8) : Bool :=
  inRanges ranges b ||
    (fold && (inRanges ranges (toAsciiLower b) || inRanges ranges (toAsciiUpper b)))

def ByteClass.holds (fold : Bool) (c : ByteClass) (b : UInt8) : Bool :=
  named fold c.ranges b != c.negated

/-- What has been read of a class, the range read last first. -/
structure ClassReader where
  ranges : List (UInt8 × UInt8)
  inRange : Bool
  first : Bool

/-- Read one byte that does not close the class: a `-` between members opens a
range, and the end of a range may not be below its start. -/
def ClassReader.step (r : ClassReader) (b : UInt8) : Option ClassReader :=
  if b = dash ∧ !r.first ∧ !r.inRange then some ⟨r.ranges, true, false⟩
  else if r.inRange then
    match r.ranges with
    | [] => none
    | (lo, _) :: ranges => if b < lo then none else some ⟨(lo, b) :: ranges, false, false⟩
  else some ⟨(b, b) :: r.ranges, false, false⟩

/-- The ranges of a class that ends here: a `-` left open is a member. -/
def ClassReader.finish (r : ClassReader) : List (UInt8 × UInt8) :=
  if r.inRange then (dash, dash) :: r.ranges else r.ranges

/-- The class that is read on, and how many bytes it takes with its `]`. -/
def readClassFrom (negated : Bool) (r : ClassReader) : Bytes → Option (ByteClass × Nat)
  | [] => none
  | b :: rest =>
    if b = closeBracket ∧ !r.first then some (⟨negated, r.finish⟩, 1)
    else (r.step b).bind fun r => (readClassFrom negated r rest).map fun (c, n) => (c, n + 1)

/-- A `!` or `^` at the start negates. -/
def negates (text : Bytes) : Bool := text.head? = some 33 ∨ text.head? = some 94

def readClass (text : Bytes) : Option (ByteClass × Nat) :=
  if negates text then
    (readClassFrom true ⟨[], false, true⟩ text.tail).map fun (c, n) => (c, n + 1)
  else readClassFrom false ⟨[], false, true⟩ text

/-! ## Tokens -/

inductive Item
  | literal (b : UInt8)
  | any
  | star
  | byteClass (c : ByteClass)

/-- The items of a glob, the first `skip` bytes left out; alternatives are not
read. -/
def items : Nat → Bytes → Option (List Item)
  | _, [] => some []
  | skip + 1, _ :: rest => items skip rest
  | 0, b :: rest =>
    if b = backslash then
      match rest with
      | [] => none
      | c :: _ => (items 1 rest).map (.literal c :: ·)
    else if b = bracket then
      match readClass rest with
      | none => none
      | some (c, n) => (items n rest).map (.byteClass c :: ·)
    else if b = star then (items 0 rest).map (.star :: ·)
    else if b = 63 then (items 0 rest).map (.any :: ·)
    else if b = 123 ∨ b = 125 then none
    else (items 0 rest).map (.literal b :: ·)

inductive Token
  | one (item : Item)
  | zeroOrMore
  | recursivePrefix
  | recursiveSuffix
  | recursiveZeroOrMore

/-- A `**` behind a separator takes the token of that separator's place. -/
def Token.replaceLast (t : Token) : List Token → List Token
  | .recursivePrefix :: acc => .recursivePrefix :: acc
  | .recursiveSuffix :: acc => .recursiveSuffix :: acc
  | _ :: acc => t :: acc
  | [] => [t]

/-- The tokens of some items, behind those of `acc`, the newest first, and with
`sep` behind a separator. -/
def tokens : List Token → Bool → List Item → List Token
  | acc, _, [] => acc.reverse
  | acc, sep, .star :: .star :: rest =>
    match acc, sep, rest with
    | [], _, [] => [.recursivePrefix]
    | [], _, .literal 47 :: rest => tokens [.recursivePrefix] true rest
    | _ :: _, true, [] => (Token.replaceLast .recursiveSuffix acc).reverse
    | _ :: _, true, .literal 47 :: rest =>
      tokens (Token.replaceLast .recursiveZeroOrMore acc) true rest
    | _, _, rest => tokens (.zeroOrMore :: .zeroOrMore :: acc) false rest
  | acc, _, .star :: rest => tokens (.zeroOrMore :: acc) false rest
  | acc, _, .literal b :: rest => tokens (.one (.literal b) :: acc) (b = slash) rest
  | acc, _, item :: rest => tokens (.one item :: acc) false rest

def parse (glob : Bytes) : Option (List Token) := (items 0 glob).map (tokens [] false)

/-! ## Matching -/

def Item.accepts (fold : Bool) : Item → UInt8 → Bool
  | .literal c, b => if fold then toAsciiLower b = toAsciiLower c else b = c
  | .any, b | .star, b => b ≠ slash
  | .byteClass c, b => c.holds fold b

def Token.takes (fold : Bool) : Token → Bytes → Bool
  | .one item, [b] => item.accepts fold b
  | .one _, _ => false
  | .zeroOrMore, s => s.all (· ≠ slash)
  | .recursivePrefix, s => s.isEmpty || endsWithByte slash s
  | .recursiveSuffix, s => startsWithByte slash s
  | .recursiveZeroOrMore, s => startsWithByte slash s && endsWithByte slash s

def matchTokens (fold : Bool) : List Token → Bytes → Bool
  | [], s => s.isEmpty
  | t :: ts, s => (List.range (s.length + 1)).any fun n =>
      t.takes fold (s.take n) && matchTokens fold ts (s.drop n)

/-- A `**` that is the whole glob matches everything. -/
def isMatch (fold : Bool) : List Token → Bytes → Bool
  | [.recursivePrefix], _ => true
  | ts, s => matchTokens fold ts s

/-! ## Folding widens -/

/-- No letter lies in the ranges. -/
def Caseless (ranges : List (UInt8 × UInt8)) : Prop :=
  ∀ b, isLetter b = true → inRanges ranges b = false

/-- Folding the case cannot narrow the class. -/
def ByteClass.Widens (c : ByteClass) : Prop := c.negated = true → Caseless c.ranges

def Item.Widens : Item → Prop
  | .byteClass c => c.Widens
  | _ => True

def Token.Widens : Token → Prop
  | .one item => item.Widens
  | _ => True

theorem caseForms (b : UInt8) : isLetter b = false → toAsciiLower b = b ∧ toAsciiUpper b = b := by
  revert b
  exact forall_byte (by decide +kernel)

theorem isLetter_caseForms (b : UInt8) : isLetter b = true →
    isLetter (toAsciiLower b) = true ∧ isLetter (toAsciiUpper b) = true := by
  revert b
  exact forall_byte (by decide +kernel)

theorem Caseless.named_fold {ranges : List (UInt8 × UInt8)} (h : Caseless ranges) (b : UInt8) :
    named true ranges b = inRanges ranges b := by
  unfold named
  cases hb : isLetter b with
  | false => simp [caseForms b hb]
  | true =>
    obtain ⟨hl, hu⟩ := isLetter_caseForms b hb
    simp [h _ hl, h _ hu]

theorem ByteClass.Widens.holds_fold {c : ByteClass} (hc : c.Widens) {b : UInt8}
    (h : c.holds false b = true) : c.holds true b = true := by
  unfold ByteClass.holds at h ⊢
  cases hneg : c.negated with
  | true =>
    rw [(hc hneg).named_fold]
    simpa [hneg, named] using h
  | false => simp_all [named]

section Tokens

variable {t : Token} {s : Bytes} {ts acc : List Token}

theorem Token.Widens.takes_fold (ht : t.Widens)
    (h : t.takes false s = true) : t.takes true s = true := by
  cases t with
  | one item =>
    match s, h with
    | [b], h =>
      cases item with
      | literal c => simp_all [Token.takes, Item.accepts]
      | byteClass c => exact ByteClass.Widens.holds_fold ht h
      | _ => exact h
  | _ => exact h

theorem matchTokens_fold (hts : ∀ t ∈ ts, t.Widens)
    (h : matchTokens false ts s = true) : matchTokens true ts s = true := by
  induction ts generalizing s with
  | nil => exact h
  | cons t ts ih =>
    simp only [matchTokens, List.any_eq_true, Bool.and_eq_true] at h ⊢
    obtain ⟨n, hn, ht, hr⟩ := h
    exact ⟨n, hn, (hts t List.mem_cons_self).takes_fold ht,
      ih (fun u hu => hts u (List.mem_cons_of_mem _ hu)) hr⟩

/-- A glob whose negated classes name no letter matches, with the case folded,
whatever it matches exactly. -/
theorem isMatch_fold (hts : ∀ t ∈ ts, t.Widens)
    (h : isMatch false ts s = true) : isMatch true ts s = true := by
  unfold isMatch at h ⊢
  split
  · rfl
  · next hne => exact matchTokens_fold hts (by simpa [hne] using h)

theorem widens_replaceLast (ht : t.Widens)
    (hacc : ∀ u ∈ acc, u.Widens) : ∀ u ∈ t.replaceLast acc, u.Widens := by
  unfold Token.replaceLast
  split <;> simp_all [Token.Widens]

theorem widens_tokens {l : List Item} (hl : ∀ i ∈ l, i.Widens) {sep : Bool}
    (hacc : ∀ t ∈ acc, t.Widens) : ∀ t ∈ tokens acc sep l, t.Widens := by
  fun_induction tokens acc sep l with
  | case1 => simpa using hacc
  | case2 => simp [Token.Widens]
  | case3 _ rest ih => exact ih (fun i hi => hl i (by simp [hi])) (by simp [Token.Widens])
  | case4 => simpa using @widens_replaceLast .recursiveSuffix _ trivial hacc
  | case5 _ _ rest ih =>
    exact ih (fun i hi => hl i (by simp [hi])) (widens_replaceLast trivial hacc)
  | case6 _ _ rest _ _ _ _ ih | case7 _ _ rest _ ih =>
    exact ih (fun i hi => hl i (by simp [hi])) (by simpa [Token.Widens] using hacc)
  | case8 _ _ b rest ih =>
    exact ih (fun i hi => hl i (by simp [hi])) (by simpa [Token.Widens, Item.Widens] using hacc)
  | case9 _ _ item rest _ _ _ ih =>
    refine ih (fun i hi => hl i (by simp [hi])) (List.forall_mem_cons.mpr ⟨?_, hacc⟩)
    exact hl item List.mem_cons_self

/-! ## Texts of globs that only widen -/

/-- If the text is a glob, folding the case cannot narrow it. -/
def Widens (glob : Bytes) : Prop := ∀ l, items 0 glob = some l → ∀ i ∈ l, i.Widens

theorem items_append (s t : Bytes) : items s.length (s ++ t) = items 0 t := by
  induction s with
  | nil => rfl
  | cons b s ih => exact ih

end Tokens

section Widens

variable {t : Bytes}

theorem Widens.of_map {i : Item} {l : List Item} (ht : Widens t) (hi : i.Widens)
    (h : (items 0 t).map (i :: ·) = some l) : ∀ j ∈ l, j.Widens := by
  obtain ⟨l', hl', rfl⟩ := Option.map_eq_some_iff.mp h
  exact List.forall_mem_cons.mpr ⟨hi, ht l' hl'⟩

theorem Widens.escaped (ht : Widens t) (b : UInt8) : Widens (backslash :: b :: t) :=
  fun _ hl => ht.of_map (i := .literal b) trivial hl

theorem Widens.cons (ht : Widens t) {b : UInt8} (hb : b ≠ backslash) (hb' : b ≠ bracket) :
    Widens (b :: t) := by
  intro l hl
  unfold items at hl
  simp only [if_neg hb, if_neg hb'] at hl
  split at hl
  · exact ht.of_map (i := .star) trivial hl
  · split at hl
    · exact ht.of_map (i := .any) trivial hl
    · split at hl
      · cases hl
      · exact ht.of_map (i := .literal b) trivial hl

theorem Widens.byteClass (ht : Widens t) {s : Bytes} {c : ByteClass} (hc : c.Widens)
    (h : readClass (s ++ t) = some (c, s.length)) : Widens (bracket :: (s ++ t)) := by
  intro l hl
  unfold items at hl
  have hne : bracket ≠ backslash := by decide
  simp only [if_neg hne, if_true, h, items_append] at hl
  exact ht.of_map (i := .byteClass c) hc hl

end Widens

end Glob
