import OxPhp.Lib.Numeral
import OxPhp.Server.Compression

/-!
# Entity tags, conditions and ranges

`server/response/static_file.rs`: the validators of a static file and the request
fields that are held against them.  A time is a number of nanoseconds since the
Unix epoch; the reading and writing of dates is a parameter.
-/

namespace OxPhp.Server.Static

open ByteStr Numeral

abbrev SystemTime := Int

structure HttpDate where
  parse : Bytes → Option SystemTime
  format : SystemTime → Bytes

def secsSinceEpoch (t : SystemTime) : Nat := t.toNat / 10 ^ 9

/-- `"<size>-<seconds, in hexadecimal>"`. -/
def generateEtag (size : Nat) (modified : SystemTime) : Bytes :=
  34 :: numeral 10 size ++ 45 :: numeral 16 (secsSinceEpoch modified) ++ [34]

inductive RangePlan where
  | full
  | part (start stop : Nat)
  | notSatisfiable
  deriving DecidableEq

def parseRangePos (s : Bytes) : Option Nat :=
  if s = [] || !s.all isAsciiDigit then none else parseUnsigned 64 s

/-- The last position of a range; a range may leave it out. -/
def parseRangeLast (s : Bytes) : Option (Option Nat) :=
  if s = [] then some none else (parseRangePos s).map some

def parseRange (value : Bytes) (size : Nat) : Option RangePlan :=
  if size = 0 then none
  else do
    let (unit, spec) ← splitOnce 61 value
    if !eqIgnoreAsciiCase (trim unit) (str "bytes") then none
    else
      let spec := trim spec
      if spec.contains comma then none
      else
        match spec with
        | 45 :: suffix => do
          let n ← parseRangePos suffix
          if n = 0 then some .notSatisfiable else some (.part (size - n) (size - 1))
        | _ => do
          let (first, last) ← splitOnce 45 spec
          let start ← parseRangePos first
          let last ← parseRangeLast last
          if last.any fun l => l < start then none
          else if size ≤ start then some .notSatisfiable
          else some (.part start (last.elim (size - 1) fun l => min l (size - 1)))

section Dates

variable (dates : HttpDate)

def ifRangeMatches (headers : RequestHeaders) (etag : Bytes) (modified now : SystemTime) : Bool :=
  match headers.ifRange with
  | none => true
  | some ifRange =>
    match toStr ifRange with
    | none => false
    | some value =>
      let value := trim value
      if isWeak value then false
      else if value.head? = some 34 then value = etag
      else
        match dates.parse value with
        | none => false
        | some time =>
          secsSinceEpoch modified = secsSinceEpoch time &&
            secsSinceEpoch modified < secsSinceEpoch now

def planRange (method : Method) (headers : RequestHeaders) (size : Nat) (etag : Bytes)
    (modified now : SystemTime) : RangePlan :=
  if method = .other then .full
  else
    match headers.range with
    | [] => .full
    | first :: others =>
      match toStr first with
      | none => .full
      | some range =>
        -- several lines are one list of ranges
        if others ≠ [] then .full
        else if !ifRangeMatches dates headers etag modified now then .full
        else (parseRange range size).getD .full

def etagWeakEq (a b : Bytes) : Bool :=
  let strip := fun tag : Bytes => if isWeak tag then tag.drop 2 else tag
  strip a = strip b

def checkNotModified (headers : RequestHeaders) (etag : Bytes) (modified : SystemTime) : Bool :=
  match headers.ifNoneMatch.bind toStr with
  | some val =>
    (val.splitOn comma).any fun tag => trim tag = str "*" || etagWeakEq (trim tag) etag
  | none =>
    match (headers.ifModifiedSince.bind toStr).bind dates.parse with
    | some imsTime => secsSinceEpoch modified ≤ secsSinceEpoch imsTime
    | none => false

end Dates

def clientTagIsWeak (headers : RequestHeaders) (etag : Bytes) : Bool :=
  (headers.ifNoneMatch.bind toStr).any fun val =>
    (val.splitOn comma).any fun tag => isWeak (trim tag) && etagWeakEq (trim tag) etag

def ifRangeTag (headers : RequestHeaders) : Option Bytes :=
  ((headers.ifRange.bind toStr).map trim).filter fun value => value.head? = some 34

/-! ## What they determine -/

theorem generateEtag_eq_iff {size size' : Nat} {modified modified' : SystemTime} :
    generateEtag size modified = generateEtag size' modified' ↔
      size = size' ∧ secsSinceEpoch modified = secsSinceEpoch modified' := by
  constructor
  · intro h
    simp only [generateEtag, List.cons_append, List.cons.injEq, true_and] at h
    have hp := List.append_cancel_right h
    exact numeral_pair_injective (by decide) (by decide) (by decide) (by decide) (by decide) hp
  · rintro ⟨rfl, hs⟩
    rw [generateEtag, hs, generateEtag]

theorem parseRange_part {value : Bytes} {size start stop : Nat}
    (h : parseRange value size = some (.part start stop)) : start ≤ stop ∧ stop < size := by
  unfold parseRange at h
  split at h
  · cases h
  next hsize =>
  obtain ⟨⟨unit, spec⟩, -, h⟩ := Option.bind_eq_some_iff.mp h
  dsimp only at h
  split_ifs at h with hunit hc
  split at h
  · -- a suffix range
    obtain ⟨n, -, h⟩ := Option.bind_eq_some_iff.mp h
    split_ifs at h with hn
    · cases h
    · cases h
      omega
  · obtain ⟨⟨first, last⟩, -, h⟩ := Option.bind_eq_some_iff.mp h
    obtain ⟨pos, -, h⟩ := Option.bind_eq_some_iff.mp h
    obtain ⟨limit, -, h⟩ := Option.bind_eq_some_iff.mp h
    split_ifs at h with hin hp
    · cases h
    · cases h
      cases limit with
      | none =>
        simp only [Option.elim_none]
        omega
      | some l =>
        simp only [Option.any_some, decide_eq_true_eq, Option.elim_some] at hin ⊢
        omega

section Dates

variable {dates : HttpDate} {method : Method} {headers : RequestHeaders} {size : Nat}
  {etag : Bytes} {modified now : SystemTime}

theorem ifRangeMatches_tag {tag : Bytes} (htag : ifRangeTag headers = some tag)
    (h : ifRangeMatches dates headers etag modified now = true) : tag = etag := by
  obtain ⟨hv, hq⟩ := Option.filter_eq_some_iff.mp htag
  obtain ⟨value, hstr, rfl⟩ := Option.map_eq_some_iff.mp hv
  obtain ⟨ifRange, hf, hstr⟩ := Option.bind_eq_some_iff.mp hstr
  simp only [ifRangeMatches, hf, hstr] at h
  split_ifs at h with hw hh
  · simpa using h
  · exact absurd (of_decide_eq_true hq) hh

theorem planRange_part {start stop : Nat}
    (h : planRange dates method headers size etag modified now = .part start stop) :
    start ≤ stop ∧ stop < size ∧ ∀ tag, ifRangeTag headers = some tag → tag = etag := by
  unfold planRange at h
  split at h
  · cases h
  split at h
  · cases h
  split at h
  · cases h
  next range hr =>
  split_ifs at h with ho hm
  rw [Bool.not_eq_true, Bool.not_eq_false'] at hm
  cases hp : parseRange range size with
  | none =>
    rw [hp] at h
    cases h
  | some plan =>
    rw [hp] at h
    obtain rfl : plan = .part start stop := h
    obtain ⟨hle, hlt⟩ := parseRange_part hp
    exact ⟨hle, hlt, fun tag htag => ifRangeMatches_tag htag hm⟩

end Dates

end OxPhp.Server.Static
