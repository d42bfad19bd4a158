import Mathlib.Algebra.Order.Ring.Nat
import Mathlib.Data.List.Basic

/-!
# Byte strings

Texts as lists of bytes: the ASCII helpers, the affix tests and the
`split`-family of a systems language's string library, with the lemmas that
relate a text to its separator-delimited components.  A text is its UTF-8
encoding, so a search for an ASCII byte is a search for that character.
-/

namespace ByteStr

abbrev Bytes := List UInt8

def str (s : String) : Bytes := s.toUTF8.data.toList

abbrev slash : UInt8 := 47
abbrev dot : UInt8 := 46
abbrev percent : UInt8 := 37
abbrev comma : UInt8 := 44

/-! ## ASCII -/

def isAsciiDigit (b : UInt8) : Bool := 48 ≤ b && b ≤ 57

def isAsciiUpper (b : UInt8) : Bool := 65 ≤ b && b ≤ 90

def isAsciiLower (b : UInt8) : Bool := 97 ≤ b && b ≤ 122

def isAsciiAlphanumeric (b : UInt8) : Bool :=
  isAsciiDigit b || isAsciiUpper b || isAsciiLower b

def toAsciiLower (b : UInt8) : UInt8 := if isAsciiUpper b then b + 32 else b

def eqIgnoreAsciiCase (s t : Bytes) : Bool := s.map toAsciiLower == t.map toAsciiLower

def endsWithIgnoreAsciiCase (suffix s : Bytes) : Bool :=
  suffix.length ≤ s.length && eqIgnoreAsciiCase (s.drop (s.length - suffix.length)) suffix

/-- White space a text over visible ASCII and control bytes can be trimmed of. -/
def isAsciiWhitespace (b : UInt8) : Bool := b == 32 || (9 ≤ b && b ≤ 13)

/-! ## Affixes and splitting -/

def startsWithByte (b : UInt8) (s : Bytes) : Bool := s.head? == some b

def endsWithByte (b : UInt8) (s : Bytes) : Bool := s.getLast? == some b

def splitOnce (sep : UInt8) : Bytes → Option (Bytes × Bytes)
  | [] => none
  | b :: rest =>
    if b = sep then some ([], rest)
    else (splitOnce sep rest).map fun (l, r) => (b :: l, r)

def rsplitOnce (sep : UInt8) : Bytes → Option (Bytes × Bytes)
  | [] => none
  | b :: rest =>
    match rsplitOnce sep rest with
    | some (l, r) => some (b :: l, r)
    | none => if b = sep then some ([], rest) else none

def trimMatches (p : UInt8 → Bool) (s : Bytes) : Bytes :=
  ((s.dropWhile p).reverse.dropWhile p).reverse

def trim (s : Bytes) : Bytes := trimMatches isAsciiWhitespace s

/-- A decimal number below `2 ^ bits`, with an optional leading `+`. -/
def parseUnsigned (bits : Nat) (s : Bytes) : Option Nat :=
  let digits := if s.head? = some 43 then s.tail else s
  if digits ≠ [] ∧ digits.all isAsciiDigit then
    let value := digits.foldl (fun acc b => acc * 10 + (b.toNat - 48)) 0
    if value < 2 ^ bits then some value else none
  else none

def segments (s : Bytes) : List Bytes := s.splitOn slash

def joinSegments (segs : List Bytes) : Bytes := [slash].intercalate segs

/-! ## Letters -/

theorem forall_byte {p : UInt8 → Prop} (h : ∀ n : Fin 256, p (UInt8.ofFin n)) (b : UInt8) :
    p b := by
  simpa using h b.toFin

theorem or_0x20_eq_p_iff (b : UInt8) : (b ||| 0x20) = 112 ↔ toAsciiLower b = 112 := by
  revert b
  exact forall_byte (by decide +kernel)

theorem or_0x20_eq_h_iff (b : UInt8) : (b ||| 0x20) = 104 ↔ toAsciiLower b = 104 := by
  revert b
  exact forall_byte (by decide +kernel)

theorem toAsciiLower_eq_dot_iff (b : UInt8) : toAsciiLower b = dot ↔ b = dot := by
  revert b
  exact forall_byte (by decide +kernel)

theorem toAsciiLower_eq_slash_iff (b : UInt8) : toAsciiLower b = slash ↔ b = slash := by
  revert b
  exact forall_byte (by decide +kernel)

/-! ## Components of a text -/

variable {sep b : UInt8} {s seg r : Bytes}

theorem not_mem_of_mem_splitOn {part : Bytes} (h : part ∈ s.splitOn sep) : sep ∉ part := by
  induction s generalizing part with
  | nil =>
    simp only [List.splitOn_nil, List.mem_singleton] at h
    subst h
    exact List.not_mem_nil
  | cons b s ih =>
    rw [List.splitOn_cons_eq_if_modifyHead] at h
    split at h
    · rcases List.mem_cons.mp h with rfl | h
      · exact List.not_mem_nil
      · exact ih h
    · next hb =>
      -- only the first part grows, by a byte that is not the separator
      cases hs : s.splitOn sep with
      | nil => simp [hs] at h
      | cons first others =>
        rw [hs, List.modifyHead_cons] at h
        rcases List.mem_cons.mp h with rfl | h
        · have hfirst : sep ∉ first := ih (by simp [hs])
          simp only [List.mem_cons, not_or]
          exact ⟨fun heq => hb (by simp [heq]), hfirst⟩
        · exact ih (by simp [hs, h])

theorem slash_not_mem_of_mem_segments (h : seg ∈ segments s) :
    slash ∉ seg := not_mem_of_mem_splitOn h

theorem segments_ne_nil (s : Bytes) : segments s ≠ [] := List.splitOn_ne_nil slash s

theorem segments_append_slash (s t : Bytes) :
    segments (s ++ slash :: t) = segments s ++ segments t :=
  List.splitOn_append_cons_self s t

theorem segments_of_slash_not_mem (h : slash ∉ s) : segments s = [s] :=
  List.splitOn_eq_singleton h

theorem joinSegments_segments (s : Bytes) : joinSegments (segments s) = s :=
  List.intercalate_splitOn slash

theorem segments_joinSegments {segs : List Bytes} (h : ∀ seg ∈ segs, slash ∉ seg)
    (hne : segs ≠ []) : segments (joinSegments segs) = segs :=
  List.splitOn_intercalate slash h hne

theorem joinSegments_singleton (seg : Bytes) : joinSegments [seg] = seg := by
  simp [joinSegments]

theorem joinSegments_cons_cons (seg next : Bytes) (segs : List Bytes) :
    joinSegments (seg :: next :: segs) = seg ++ slash :: joinSegments (next :: segs) := by
  simp [joinSegments, List.intercalate_cons_cons]

theorem joinSegments_append {xs ys : List Bytes} (hx : xs ≠ []) (hy : ys ≠ []) :
    joinSegments (xs ++ ys) = joinSegments xs ++ slash :: joinSegments ys := by
  induction xs with
  | nil => exact absurd rfl hx
  | cons x xs ih =>
    cases xs with
    | nil =>
      obtain ⟨y, ys, rfl⟩ := List.exists_cons_of_ne_nil hy
      simp [joinSegments, List.intercalate_cons_cons]
    | cons x' xs =>
      have ht := ih (by simp)
      simp only [List.cons_append] at ht ⊢
      rw [joinSegments_cons_cons, ht, joinSegments_cons_cons]
      simp

theorem segments_cons_slash (s : Bytes) : segments (slash :: s) = [] :: segments s := by
  simp [segments, List.splitOn_cons_eq_if_modifyHead]

theorem segments_cons_of_ne (hb : b ≠ slash) (s : Bytes) :
    segments (b :: s) = (segments s).modifyHead (b :: ·) := by
  simp [segments, List.splitOn_cons_eq_if_modifyHead, hb]

theorem exists_segments_cons (hb : b ≠ slash) (s : Bytes) :
    ∃ first others, segments s = first :: others ∧ segments (b :: s) = (b :: first) :: others := by
  obtain ⟨first, others, hs⟩ := List.exists_cons_of_ne_nil (segments_ne_nil s)
  exact ⟨first, others, hs, by rw [segments_cons_of_ne hb, hs, List.modifyHead_cons]⟩

theorem head?_eq_of_segments_eq {first : Bytes} {others : List Bytes}
    (h : segments s = first :: others) (hne : first ≠ []) : s.head? = first.head? := by
  rw [← joinSegments_segments s, h]
  cases others with
  | nil => simp [joinSegments]
  | cons next others => rw [joinSegments_cons_cons, List.head?_append_of_ne_nil _ hne]

theorem exists_append_of_mem_segments (h : seg ∈ segments s) :
    ∃ before after, s = before ++ seg ++ after ∧ (after = [] ∨ after.head? = some slash) := by
  induction s generalizing seg with
  | nil =>
    have hseg : seg = [] := by simpa [segments] using h
    exact ⟨[], [], by simp [hseg], .inl rfl⟩
  | cons b s ih =>
    by_cases hb : b = slash
    · subst hb
      rw [segments_cons_slash] at h
      rcases List.mem_cons.mp h with rfl | h
      · exact ⟨[], slash :: s, rfl, .inr rfl⟩
      · obtain ⟨before, after, hs, ha⟩ := ih h
        exact ⟨slash :: before, after, by simp [hs], ha⟩
    · obtain ⟨first, others, hsplit, hc⟩ := exists_segments_cons hb s
      rw [hc] at h
      rcases List.mem_cons.mp h with rfl | h
      · have hs : s = joinSegments (first :: others) := by
          rw [← hsplit, joinSegments_segments]
        cases others with
        | nil => exact ⟨[], [], by simp [hs, joinSegments], .inl rfl⟩
        | cons next others =>
          rw [joinSegments_cons_cons] at hs
          exact ⟨[], slash :: joinSegments (next :: others), by simp [hs], .inr rfl⟩
      · have hmem : seg ∈ segments s := hsplit ▸ List.mem_cons_of_mem first h
        obtain ⟨before, after, hs, ha⟩ := ih hmem
        exact ⟨b :: before, after, by simp [hs], ha⟩

theorem segments_append_of_slash_not_mem (s : Bytes) {t : Bytes} (h : slash ∉ t) :
    ∃ init last, segments s = init ++ [last] ∧ segments (s ++ t) = init ++ [last ++ t] := by
  induction s with
  | nil => exact ⟨[], [], by simp [segments], by simp [segments_of_slash_not_mem h]⟩
  | cons b s ih =>
    obtain ⟨init, last, hs, hst⟩ := ih
    by_cases hb : b = slash
    · subst hb
      refine ⟨[] :: init, last, by simp [segments_cons_slash, hs], ?_⟩
      simp [segments_cons_slash, hst]
    · rw [List.cons_append, segments_cons_of_ne hb, segments_cons_of_ne hb, hs, hst]
      cases init with
      | nil => exact ⟨[], b :: last, rfl, rfl⟩
      | cons first init => exact ⟨(b :: first) :: init, last, rfl, rfl⟩

/-! ## The last separator -/

theorem rsplitOnce_eq_none_iff : rsplitOnce sep s = none ↔ sep ∉ s := by
  induction s with
  | nil => simp [rsplitOnce]
  | cons b s ih =>
    unfold rsplitOnce
    cases h : rsplitOnce sep s with
    | none =>
      have hs : sep ∉ s := ih.mp h
      by_cases hb : b = sep
      · simp [hb]
      · simp [hb, hs, Ne.symm hb]
    | some parts =>
      have hs : sep ∈ s := by
        by_contra hs
        rw [ih.mpr hs] at h
        cases h
      simp [hs]

theorem rsplitOnce_eq_some {l : Bytes}
    (h : rsplitOnce sep s = some (l, r)) : s = l ++ sep :: r ∧ sep ∉ r := by
  induction s generalizing l with
  | nil => cases h
  | cons b s ih =>
    unfold rsplitOnce at h
    cases hs : rsplitOnce sep s with
    | none =>
      simp only [hs, Option.ite_none_right_eq_some, Option.some.injEq, Prod.mk.injEq] at h
      obtain ⟨hb, rfl, rfl⟩ := h
      exact ⟨by simp [hb], rsplitOnce_eq_none_iff.mp hs⟩
    | some parts =>
      obtain ⟨l', r'⟩ := parts
      simp only [hs, Option.some.injEq, Prod.mk.injEq] at h
      obtain ⟨rfl, rfl⟩ := h
      obtain ⟨hcat, hr⟩ := ih hs
      exact ⟨by simp [hcat], hr⟩

theorem rsplitOnce_append (hr : sep ∉ r) (l : Bytes) :
    rsplitOnce sep (l ++ sep :: r) = some (l, r) := by
  induction l with
  | nil => simp [rsplitOnce, rsplitOnce_eq_none_iff.mpr hr]
  | cons b l ih => simp [rsplitOnce, ih]

/-! ## Case-insensitive endings -/

theorem endsWithIgnoreAsciiCase_iff {suffix : Bytes} : endsWithIgnoreAsciiCase suffix s = true ↔
      ∃ stem ext, s = stem ++ ext ∧ eqIgnoreAsciiCase ext suffix = true := by
  simp only [endsWithIgnoreAsciiCase, Bool.and_eq_true, decide_eq_true_eq]
  constructor
  · rintro ⟨-, h⟩
    exact ⟨_, _, (List.take_append_drop _ s).symm, h⟩
  · rintro ⟨stem, ext, rfl, h⟩
    have hlen : ext.length = suffix.length := by
      simpa using congrArg List.length (beq_iff_eq.mp h)
    refine ⟨by simp [hlen], ?_⟩
    rw [← hlen, List.length_append, Nat.add_sub_cancel, List.drop_left]
    exact h

end ByteStr
