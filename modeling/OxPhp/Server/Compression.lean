import OxPhp.Server.Message

/-!
# Content codings

`server/compression.rs`: what a client accepts, weighed against what the server
offers, and the encoding of a response whose body is held whole.  The encoders
are a parameter.
-/

namespace OxPhp.Server

open ByteStr

def minCompressSize : Nat := 256

def maxCompressSize : Nat := 3 * 1024 * 1024

def inWindow (size : Nat) : Bool := minCompressSize ≤ size && size ≤ maxCompressSize

theorem inWindow_iff {size : Nat} :
    inWindow size = true ↔ minCompressSize ≤ size ∧ size ≤ maxCompressSize := by
  simp [inWindow]

inductive Coding where
  | br
  | gzip
  | zstd
  deriving DecidableEq

namespace Coding

def all : List Coding := [br, gzip, zstd]

/-- Best first, for a body compressed while the request waits. -/
def perRequest : List Coding := [zstd, br, gzip]

/-- Best first, for a cached static file. -/
def artifact : List Coding := [br, zstd, gzip]

def name : Coding → Bytes
  | br => str "br"
  | gzip => str "gzip"
  | zstd => str "zstd"

theorem mem_all (coding : Coding) : coding ∈ all := by
  cases coding <;> decide

theorem mem_perRequest (coding : Coding) : coding ∈ perRequest := by
  cases coding <;> decide

theorem mem_artifact (coding : Coding) : coding ∈ artifact := by
  cases coding <;> decide

end Coding

/-- The level of each coding; the server does not offer one whose level is zero. -/
structure Levels where
  brotli : Int
  gzip : Int
  zstd : Int

namespace Levels

def level (levels : Levels) : Coding → Int
  | .br => levels.brotli
  | .gzip => levels.gzip
  | .zstd => levels.zstd

def any (levels : Levels) : Bool := Coding.all.any fun coding => 0 < levels.level coding

end Levels

/-! ## Accept-Encoding -/

def parseWeight (parameter : Bytes) : Option Nat := do
  let (name, value) ← splitOnce 61 parameter
  if eqIgnoreAsciiCase (trim name) (str "q") then
    let value := trim value
    let (integer, fraction) := (splitOnce dot value).getD (value, [])
    let weight ←
      if integer = str "0" then some 0 else if integer = str "1" then some 1000 else none
    if 3 < fraction.length || !fraction.all isAsciiDigit then none
    else
      let digits := (fraction.zip [100, 10, 1]).map fun (digit, scale) => (digit.toNat - 48) * scale
      some (min (weight + digits.sum) 1000)
  else none

/-- The weight of a coding; a coding the field does not name has that of `*`. -/
def qvalue (acceptEncoding coding : Bytes) : Nat :=
  go none (acceptEncoding.splitOn comma)
where
  go (wildcard : Option Nat) : List Bytes → Nat
    | [] => wildcard.getD 0
    | element :: elements =>
      let parts := element.splitOn 59
      let name := trim (parts.headD [])
      if name = [] then go wildcard elements
      else
        let weight := (parts.tail.findSome? parseWeight).getD 1000
        if eqIgnoreAsciiCase name coding then weight
        else go (if name = str "*" then some weight else wildcard) elements

structure Acceptable where
  weight : Coding → Nat

namespace Acceptable

def parse (acceptEncoding : Bytes) (levels : Levels) : Acceptable where
  weight coding := if 0 < levels.level coding then qvalue acceptEncoding coding.name else 0

def fromHeaders (lines : List Bytes) (levels : Levels) : Acceptable :=
  match lines.filterMap toStr with
  | [] => { weight := fun _ => 0 }
  | first :: others => parse ([comma].intercalate (first :: others)) levels

variable (a : Acceptable)

def better (best : Option (Nat × Coding)) (coding : Coding) : Option (Nat × Coding) :=
  if 0 < a.weight coding && best.all fun b => b.1 < a.weight coding then
    some (a.weight coding, coding)
  else best

def best (preference : List Coding) : Option Coding :=
  (preference.foldl a.better none).map Prod.snd

def perRequest : Option Coding := a.best Coding.perRequest

def artifact : Option Coding := a.best Coding.artifact

variable {a}

theorem isSome_foldl_better (codings : List Coding) (best : Option (Nat × Coding)) :
    (codings.foldl a.better best).isSome = true ↔
      best.isSome = true ∨ ∃ coding ∈ codings, 0 < a.weight coding := by
  induction codings generalizing best with
  | nil => simp
  | cons coding codings ih =>
    rw [List.foldl_cons, ih]
    have hr : (a.better best coding).isSome = true ↔
        best.isSome = true ∨ 0 < a.weight coding := by
      unfold better
      cases best with
      | none => by_cases h : 0 < a.weight coding <;> simp [h]
      | some b => split <;> simp
    simp [hr, or_assoc]

theorem isSome_best {preference : List Coding} (hall : ∀ coding, coding ∈ preference) :
    (a.best preference).isSome = true ↔ ∃ coding, 0 < a.weight coding := by
  rw [best, Option.isSome_map, isSome_foldl_better]
  simp [hall]

theorem isSome_perRequest : a.perRequest.isSome = a.artifact.isSome := by
  rw [Bool.eq_iff_iff, perRequest, artifact, isSome_best Coding.mem_perRequest,
    isSome_best Coding.mem_artifact]

theorem any_of_artifact {lines : List Bytes} {levels : Levels}
    (h : (fromHeaders lines levels).artifact.isSome = true) : levels.any = true := by
  obtain ⟨coding, hpos⟩ := (isSome_best Coding.mem_artifact).mp h
  unfold fromHeaders at hpos
  split at hpos
  · exact absurd hpos (Nat.lt_irrefl 0)
  · simp only [parse] at hpos
    split at hpos
    · next hl => exact List.any_eq_true.mpr ⟨coding, coding.mem_all, decide_eq_true hl⟩
    · exact absurd hpos (Nat.lt_irrefl 0)

end Acceptable

/-! ## What is compressed -/

def compressibleTypes : List Bytes :=
  [str "text/html", str "text/css", str "text/plain", str "text/xml", str "text/javascript",
    str "application/javascript", str "application/json", str "application/xml",
    str "application/xhtml+xml", str "application/rss+xml", str "application/atom+xml",
    str "application/manifest+json", str "application/ld+json", str "application/wasm",
    str "image/svg+xml", str "font/ttf", str "font/otf", str "application/x-font-ttf",
    str "application/x-font-opentype", str "application/vnd.ms-fontobject"]

def isCompressible (contentType : Bytes) : Bool :=
  let ct := trim ((contentType.splitOn 59).headD [])
  compressibleTypes.any fun candidate => eqIgnoreAsciiCase ct candidate

/-- Whether a response of this type and size is compressed for a client that
accepts a coding. -/
def wouldCompress (levels : Levels) (contentType : Bytes) (size : Nat) : Bool :=
  levels.any && isCompressible contentType && inWindow size

def artifactLevel : Coding → Int
  | .br => 11
  | .gzip => 9
  | .zstd => 19

/-! ## Encoding a response -/

def alreadyVaries (response : Response) : Bool :=
  response.vary.any fun line =>
    (line.splitOn comma).any fun member => eqIgnoreAsciiCase (trim member) (str "accept-encoding")

def appendVary (response : Response) : Response :=
  if alreadyVaries response then response
  else { response with vary := response.vary ++ [str "Accept-Encoding"] }

def isWeak (tag : Bytes) : Bool := (str "W/").isPrefixOf tag

def weaken (tag : Bytes) : Bytes := if isWeak tag then tag else str "W/" ++ tag

def markEncoded (response : Response) (coding : Coding) : Response :=
  appendVary
    { response with
      contentEncoding := some coding.name
      etag := response.etag.map weaken
      acceptRanges := none
      contentLength := some (response.body.exact.getD 0) }

def maybeCompress (compress : Coding → Int → Bytes → Option Bytes) (response : Response)
    (coding : Coding) (level : Int) : Response :=
  if response.status = 206 then response
  else if !isCompressible (response.contentType.getD []) then response
  else if response.contentEncoding.isSome then response
  else if response.contentLength.any fun len => !inWindow len then response
  else
    match response.body with
    | .stream _ => response
    | .full bytes =>
      if !inWindow bytes.length then response
      else
        match compress coding level bytes with
        | none => response
        | some encoded => markEncoded { response with body := .full encoded } coding

/-- An identity response varies by `Accept-Encoding` too when another client
would be sent an encoded one. -/
def markVariesByEncoding (response : Response) (levels : Levels) : Response :=
  if response.status = 206 || response.contentEncoding.isSome then response
  else
    match response.body.exact with
    | none => response
    | some len =>
      if wouldCompress levels (response.contentType.getD []) len then appendVary response
      else response

section Encoding

variable {compress : Coding → Int → Bytes → Option Bytes} {response : Response} {coding : Coding}
  {level : Int}

@[simp]
theorem status_appendVary : (appendVary response).status = response.status := by
  unfold appendVary
  split <;> rfl

@[simp]
theorem contentEncoding_appendVary :
    (appendVary response).contentEncoding = response.contentEncoding := by
  unfold appendVary
  split <;> rfl

@[simp]
theorem status_markEncoded : (markEncoded response coding).status = response.status := by
  simp [markEncoded]

@[simp]
theorem status_maybeCompress :
    (maybeCompress compress response coding level).status = response.status := by
  unfold maybeCompress
  split_ifs <;> try rfl
  split
  · rfl
  · split_ifs
    · rfl
    · split <;> simp

theorem maybeCompress_of_206 (h : response.status = 206) :
    maybeCompress compress response coding level = response := by
  rw [maybeCompress, if_pos h]

theorem encoded_maybeCompress
    (h : (maybeCompress compress response coding level).contentEncoding.isSome = true) :
    response.contentEncoding.isSome = true ∨ isCompressible (response.contentType.getD []) = true ∧
        ∃ bytes, response.body = .full bytes ∧ inWindow bytes.length = true := by
  by_cases he : response.contentEncoding.isSome = true
  · exact .inl he
  right
  unfold maybeCompress at h
  split_ifs at h with hs htype hlength
  · exact absurd h he
  · exact absurd h he
  · exact absurd h he
  · refine ⟨by simpa using htype, ?_⟩
    split at h
    · exact absurd h he
    · next bytes hb =>
      split_ifs at h with hw
      · exact absurd h he
      · exact ⟨bytes, hb, by simpa using hw⟩

@[simp]
theorem status_markVariesByEncoding {levels : Levels} :
    (markVariesByEncoding response levels).status = response.status := by
  unfold markVariesByEncoding
  split_ifs
  · rfl
  · split
    · rfl
    · split_ifs <;> simp

@[simp]
theorem contentEncoding_markVariesByEncoding {levels : Levels} :
    (markVariesByEncoding response levels).contentEncoding = response.contentEncoding := by
  unfold markVariesByEncoding
  split_ifs
  · rfl
  · split
    · rfl
    · split_ifs <;> simp

theorem markVariesByEncoding_of_206 {levels : Levels} (h : response.status = 206) :
    markVariesByEncoding response levels = response := by
  simp [markVariesByEncoding, h]

end Encoding

end OxPhp.Server
