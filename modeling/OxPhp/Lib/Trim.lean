import Mathlib.Data.List.TakeWhile
import OxPhp.Lib.ByteStr

/-!
# Words at the start of a text

A text is what trimming leaves of it, between bytes that are trimmed off, and this
determines what is left.
-/

namespace ByteStr

variable {p : UInt8 → Bool} {s t word : Bytes} {sep : UInt8}

/-! ## Trimming -/

/-- Nothing to trim at either end. -/
structure Trimmed (p : UInt8 → Bool) (s : Bytes) : Prop where
  head : ∀ b ∈ s.head?, p b = false
  last : ∀ b ∈ s.getLast?, p b = false

theorem dropWhile_of_head (hh : ∀ b ∈ s.head?, p b = false) : s.dropWhile p = s := by
  cases s with
  | nil => rfl
  | cons b s => exact List.dropWhile_cons_of_neg (by simp [hh b rfl])

/-- **What trimming leaves.** -/
theorem trimMatches_eq {before after : Bytes} (hb : ∀ b ∈ before, p b = true)
    (ha : ∀ b ∈ after, p b = true) (hs : Trimmed p s) :
    trimMatches p (before ++ (s ++ after)) = s := by
  rw [trimMatches, List.dropWhile_append_of_pos hb]
  cases s with
  | nil =>
    rw [List.nil_append, List.dropWhile_eq_nil_iff.mpr ha]
    rfl
  | cons b s =>
    have hfirst : ∀ c ∈ (b :: s ++ after).head?, p c = false := hs.head
    have hlast : ∀ c ∈ (b :: s).reverse.head?, p c = false := by
      rw [List.head?_reverse]
      exact hs.last
    rw [dropWhile_of_head hfirst, List.reverse_append,
      List.dropWhile_append_of_pos (by simpa using ha), dropWhile_of_head hlast,
      List.reverse_reverse]

theorem head_dropWhile (p : UInt8 → Bool) (s : Bytes) :
    ∀ b ∈ (s.dropWhile p).head?, p b = false := by
  intro b hb
  have hnot := List.head?_dropWhile_not p s
  rw [Option.mem_def.mp hb] at hnot
  exact hnot

theorem exists_dropWhile (p : UInt8 → Bool) (s : Bytes) :
    ∃ after, s.dropWhile p = trimMatches p s ++ after ∧ ∀ b ∈ after, p b = true := by
  refine ⟨((s.dropWhile p).reverse.takeWhile p).reverse, ?_, ?_⟩
  · rw [trimMatches, ← List.reverse_append, List.takeWhile_append_dropWhile, List.reverse_reverse]
  · intro b hb
    exact List.mem_takeWhile_imp (List.mem_reverse.mp hb)

theorem trimmed_trimMatches (p : UInt8 → Bool) (s : Bytes) : Trimmed p (trimMatches p s) := by
  constructor
  · intro b hb
    obtain ⟨after, hs, -⟩ := exists_dropWhile p s
    refine head_dropWhile p s b ?_
    rw [hs, List.head?_append, Option.mem_def.mp hb]
    rfl
  · rw [trimMatches, List.getLast?_reverse]
    exact head_dropWhile p _

theorem exists_trimMatches (p : UInt8 → Bool) (s : Bytes) :
    ∃ before after, s = before ++ (trimMatches p s ++ after) ∧ (∀ b ∈ before, p b = true) ∧
      ∀ b ∈ after, p b = true := by
  obtain ⟨after, hs, ha⟩ := exists_dropWhile p s
  refine ⟨s.takeWhile p, after, ?_, fun b hb => List.mem_takeWhile_imp hb, ha⟩
  rw [← hs, List.takeWhile_append_dropWhile]

theorem Trimmed.trimMatches (h : Trimmed p s) : trimMatches p s = s := by
  have hn : ∀ b ∈ ([] : Bytes), p b = true := by simp
  have ht := trimMatches_eq hn hn h
  rwa [List.nil_append, List.append_nil] at ht

theorem trimMatches_cons {b : UInt8} (hb : p b = true) (s : Bytes) :
    trimMatches p (b :: s) = trimMatches p s := by
  rw [trimMatches, trimMatches, List.dropWhile_cons_of_pos hb]

theorem mem_of_mem_trimMatches {b : UInt8} (h : b ∈ trimMatches p s) : b ∈ s := by
  obtain ⟨before, after, hs, -⟩ := exists_trimMatches p s
  rw [hs]
  exact List.mem_append_right _ (List.mem_append_left _ h)

/-! ## Splitting -/

theorem mem_of_mem_intercalate {parts : List Bytes} {b : UInt8} {joint : Bytes}
    (hb : b ∈ joint.intercalate parts) : b ∈ joint ∨ ∃ part ∈ parts, b ∈ part := by
  induction parts with
  | nil => simp at hb
  | cons first parts ih =>
    cases parts with
    | nil => exact .inr ⟨first, List.mem_cons_self, by simpa using hb⟩
    | cons next parts =>
      rw [List.intercalate_cons_cons, List.mem_append, List.mem_append] at hb
      rcases hb with (hb | hb) | hb
      · exact .inr ⟨first, List.mem_cons_self, hb⟩
      · exact .inl hb
      · rcases ih hb with hb | ⟨part, hp, hb⟩
        · exact .inl hb
        · exact .inr ⟨part, List.mem_cons_of_mem _ hp, hb⟩

theorem foldl_intercalate (joint first : Bytes) (parts : List Bytes) :
    parts.foldl (fun joined part => joined ++ joint ++ part) first =
      joint.intercalate (first :: parts) := by
  induction parts generalizing first with
  | nil => simp
  | cons next parts ih =>
    rw [List.foldl_cons, ih, List.intercalate_cons_cons]
    cases parts with
    | nil => simp
    | cons third parts => simp [List.intercalate_cons_cons]

theorem infix_intercalate {parts : List Bytes} (joint : Bytes) (ht : t ∈ parts) :
    t <:+: joint.intercalate parts := by
  induction parts with
  | nil => cases ht
  | cons first parts ih =>
    cases parts with
    | nil =>
      cases List.mem_singleton.mp ht
      simp
    | cons next parts =>
      rw [List.intercalate_cons_cons]
      rcases List.mem_cons.mp ht with rfl | ht
      · exact ⟨[], joint ++ joint.intercalate (next :: parts), by simp⟩
      · exact (ih ht).trans (List.suffix_append _ _).isInfix

theorem infix_of_mem_splitOn (ht : t ∈ s.splitOn sep) : t <:+: s := by
  have hj : [sep].intercalate (s.splitOn sep) = s := List.intercalate_splitOn sep
  have hw := infix_intercalate [sep] ht
  rwa [hj] at hw

theorem splitOnce_append {l : Bytes} (hl : sep ∉ l) (r : Bytes) :
    splitOnce sep (l ++ sep :: r) = some (l, r) := by
  induction l with
  | nil => rw [List.nil_append, splitOnce, if_pos rfl]
  | cons b l ih =>
    obtain ⟨hb, hl⟩ := not_or.mp (List.mem_cons.not.mp hl)
    rw [List.cons_append, splitOnce, if_neg (Ne.symm hb), ih hl]
    rfl

theorem splitOnce_of_not_mem (h : sep ∉ s) : splitOnce sep s = none := by
  induction s with
  | nil => rfl
  | cons b s ih =>
    obtain ⟨hb, hs⟩ := not_or.mp (List.mem_cons.not.mp h)
    rw [splitOnce, if_neg (Ne.symm hb), ih hs]
    rfl

theorem splitOnce_cases (sep : UInt8) (s : Bytes) : (sep ∉ s ∧ splitOnce sep s = none) ∨
      ∃ l r, s = l ++ sep :: r ∧ sep ∉ l ∧ splitOnce sep s = some (l, r) := by
  by_cases h : sep ∈ s
  · obtain ⟨l, r, hs, hl⟩ := List.eq_append_cons_of_mem h
    exact .inr ⟨l, r, hs, hl, hs ▸ splitOnce_append hl r⟩
  · exact .inl ⟨h, splitOnce_of_not_mem h⟩

/-! ## Words -/

theorem prefix_append_iff (h : ∀ b ∈ t.head?, b ∉ word) : word <+: s ++ t ↔ word <+: s := by
  induction s generalizing word with
  | nil =>
    cases t with
    | nil => rfl
    | cons b t =>
      cases word with
      | nil => simp
      | cons c word =>
        have hne : c ≠ b := fun heq => h b rfl (heq ▸ List.mem_cons_self)
        simp [List.cons_prefix_cons, hne]
  | cons b s ih =>
    cases word with
    | nil => simp
    | cons c word =>
      have hr := @ih word fun x hx hmem => h x hx (List.mem_cons_of_mem _ hmem)
      simp only [List.cons_append, List.cons_prefix_cons, hr]

theorem prefix_dropWhile_iff (h : ∀ b ∈ word, p b = false) :
    word <+: s.dropWhile p ↔ word <+: trimMatches p s := by
  obtain ⟨after, hs, ha⟩ := exists_dropWhile p s
  rw [hs]
  refine prefix_append_iff fun b hb hmem => ?_
  have hbl := ha b (List.mem_of_mem_head? hb)
  rw [h b hmem] at hbl
  cases hbl

end ByteStr
