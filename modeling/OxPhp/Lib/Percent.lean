import OxPhp.Lib.ByteStr

/-!
# UTF-8 validity and percent-decoding

The decoding a URI path goes through: `%XX` escapes become bytes, once, and
the result is accepted only when it is well-formed UTF-8.  Where bytes that are
not have to be a text all the same, replacement characters stand for them.
-/

namespace ByteStr

/-! ## UTF-8 -/

def isContinuation (b : UInt8) : Bool := 0x80 ≤ b && b ≤ 0xBF

/-- The second byte of a three-byte sequence: no overlong form, no surrogate. -/
def isSecondOfThree (lead b : UInt8) : Bool :=
  if lead = 0xE0 then 0xA0 ≤ b && b ≤ 0xBF
  else if lead = 0xED then 0x80 ≤ b && b ≤ 0x9F
  else 0xE1 ≤ lead && lead ≤ 0xEF && isContinuation b

/-- The second byte of a four-byte sequence: no overlong form, nothing past
the last code point. -/
def isSecondOfFour (lead b : UInt8) : Bool :=
  if lead = 0xF0 then 0x90 ≤ b && b ≤ 0xBF
  else if lead = 0xF4 then 0x80 ≤ b && b ≤ 0x8F
  else 0xF1 ≤ lead && lead ≤ 0xF3 && isContinuation b

def isUtf8 : Bytes → Bool
  | [] => true
  | a :: rest =>
    if a < 0x80 then isUtf8 rest
    else
      match rest with
      | [] => false
      | b :: rest =>
        if 0xC2 ≤ a && a ≤ 0xDF && isContinuation b then isUtf8 rest
        else
          match rest with
          | [] => false
          | c :: rest =>
            if isSecondOfThree a b && isContinuation c then isUtf8 rest
            else
              match rest with
              | [] => false
              | d :: rest =>
                isSecondOfFour a b && isContinuation c && isContinuation d && isUtf8 rest

/-- U+FFFD, for what is no character. -/
def replacement : Bytes := str "\uFFFD"

/-- The text of some bytes: every longest beginning of a character that is not
the whole of one becomes one replacement character. -/
def utf8Lossy : Bytes → Bytes
  | [] => []
  | a :: rest =>
    if a < 0x80 then a :: utf8Lossy rest
    else
      match rest with
      | [] => replacement
      | b :: rest =>
        if 0xC2 ≤ a && a ≤ 0xDF && isContinuation b then a :: b :: utf8Lossy rest
        else if isSecondOfThree a b then
          match rest with
          | [] => replacement
          | c :: rest =>
            if isContinuation c then a :: b :: c :: utf8Lossy rest
            else replacement ++ utf8Lossy (c :: rest)
        else if isSecondOfFour a b then
          match rest with
          | [] => replacement
          | c :: rest =>
            if isContinuation c then
              match rest with
              | [] => replacement
              | d :: rest =>
                if isContinuation d then a :: b :: c :: d :: utf8Lossy rest
                else replacement ++ utf8Lossy (d :: rest)
            else replacement ++ utf8Lossy (c :: rest)
        else replacement ++ utf8Lossy (b :: rest)

example : utf8Lossy [0x61, 0xE2, 0x82, 0x62, 0xFF, 0xC3] =
    str "a\uFFFDb\uFFFD\uFFFD" := by decide

/-! ## Percent-decoding -/

def hexDigit (b : UInt8) : Option UInt8 :=
  if isAsciiDigit b then some (b - 48)
  else if 65 ≤ b && b ≤ 70 then some (b - 55)
  else if 97 ≤ b && b ≤ 102 then some (b - 87)
  else none

/-- Replace every `%XX` by its byte; any other `%` stands for itself. -/
def percentDecode : Bytes → Bytes
  | [] => []
  | b :: rest =>
    if b = percent then
      match rest with
      | hi :: lo :: after =>
        match hexDigit hi, hexDigit lo with
        | some h, some l => (h * 16 + l) :: percentDecode after
        | _, _ => b :: percentDecode (hi :: lo :: after)
      | short => b :: percentDecode short
    else b :: percentDecode rest

def decodeUtf8 (s : Bytes) : Option Bytes :=
  let decoded := percentDecode s
  if isUtf8 decoded then some decoded else none

theorem percentDecode_of_percent_not_mem {s : Bytes} (h : percent ∉ s) : percentDecode s = s := by
  induction s with
  | nil => rfl
  | cons b s ih =>
    simp only [List.mem_cons, not_or] at h
    have ht : percentDecode s = s := ih h.2
    unfold percentDecode
    rw [if_neg (Ne.symm h.1), ht]

theorem decodeUtf8_eq_some {s decoded : Bytes} (h : decodeUtf8 s = some decoded) :
    decoded = percentDecode s := by
  simp only [decodeUtf8, Option.ite_none_right_eq_some, Option.some.injEq] at h
  exact h.2.symm

example : percentDecode (str "/a%2Eb%2") = str "/a.b%2" := by decide

end ByteStr
