import OxPhp.Server.Static.FileCache

/-!
# The responses of static serving

The responses that `serve` in `server/response/static_file.rs` builds, from the
cache, from a file read whole and from a file that is streamed, and what
`server/connection.rs` does to them.  Making a header value of a text does not
fail here.
-/

namespace OxPhp.Server.Static

open ByteStr Numeral

structure Host where
  dates : HttpDate
  mimeGuess : Bytes → Bytes
  compress : Coding → Int → Bytes → Option Bytes
  levels : Levels
  cacheControl : Option Bytes
  revalidateTtl : Option Nat

structure Request where
  path : Bytes
  method : Method
  headers : RequestHeaders
  deriving DecidableEq

structure ArtifactWanted where
  key : Bytes
  coding : Coding
  bytes : Bytes
  modified : SystemTime
  deriving DecidableEq

structure Reading where
  inode : Nat
  pos : Nat
  remaining : Nat
  deriving DecidableEq

/-! ## Responses -/

/-- Should range handling apply to a buffered response? -/
def rangesAllowed (willEncode : Bool) (levels : Levels) (mimeType : Bytes) (size : Nat) : Bool :=
  !(willEncode && wouldCompress levels mimeType size)

def slice (bytes : Bytes) (start stop : Nat) : Bytes := (bytes.drop start).take (stop - start + 1)

def contentRange (start stop size : Nat) : Bytes :=
  str "bytes " ++ numeral 10 start ++ 45 :: numeral 10 stop ++ 47 :: numeral 10 size

def varyLines (variesByEncoding : Bool) : List Bytes :=
  if variesByEncoding then [str "Accept-Encoding"] else []

def build416 (size : Nat) (variesByEncoding : Bool) : Response :=
  { plainText 416 "416 Range Not Satisfiable" with
    contentRange := some (str "bytes */" ++ numeral 10 size)
    vary := varyLines variesByEncoding }

def build304 (etag lastModified cacheControl : Bytes) : Response :=
  { status := 304
    etag := some etag
    lastModified := some lastModified
    cacheControl := some cacheControl
    body := .full [] }

def notFound : Response := plainText 404 "404 Not Found"

def internalServerError : Response := plainText 500 "500 Internal Server Error"

def addCacheHeaders (cacheControl : Option Bytes) (etag lastModified : Bytes)
    (response : Response) : Response :=
  match cacheControl with
  | none => response
  | some cc =>
    { response with
      etag := some etag
      lastModified := some lastModified
      cacheControl := some cc }

namespace Host

variable (host : Host)

def coding (request : Request) : Option Coding :=
  (Acceptable.fromHeaders request.headers.acceptEncoding host.levels).artifact

def variesByEncoding (request : Request) (size : Nat) : Bool :=
  wouldCompress host.levels (host.mimeGuess request.path) size

/-- 304 is for `GET` and `HEAD`, and needs a `Cache-Control` to echo. -/
def tries304 (request : Request) : Bool := request.method ≠ .other && host.cacheControl.isSome

def respondPlan (bytes : Bytes) (headers : ContentHeaders) (mimeType : Bytes) (allowRanges : Bool)
    (plan : RangePlan) : Response :=
  let size := bytes.length
  let varies := wouldCompress host.levels mimeType size
  let head : Response :=
    { status := 200
      contentType := some headers.contentType
      contentLength := some headers.contentLength
      acceptRanges := if allowRanges then some (str "bytes") else none
      vary := varyLines varies
      body := .full bytes }
  match plan with
  | .notSatisfiable => build416 size varies
  | .full => addCacheHeaders host.cacheControl headers.etag headers.lastModified head
  | .part start stop =>
    addCacheHeaders host.cacheControl headers.etag headers.lastModified
      { head with
        status := 206
        contentLength := some (stop - start + 1)
        contentRange := some (contentRange start stop size)
        body := .full (slice bytes start stop) }

def respondBytes (request : Request) (bytes : Bytes) (headers : ContentHeaders)
    (mimeType etag : Bytes) (modified now : SystemTime) (allowRanges : Bool) : Response :=
  host.respondPlan bytes headers mimeType allowRanges
    (if allowRanges then
      planRange host.dates request.method request.headers bytes.length etag modified now
    else .full)

/-- Ranges apply unless the client would be sent an encoded copy. -/
def allowRanges (request : Request) (mimeType : Bytes) (size : Nat) : Bool :=
  rangesAllowed (host.coding request).isSome host.levels mimeType size

def respondEntry (request : Request) (e : ContentEntry) (now : SystemTime) : Response :=
  host.respondBytes request e.bytes e.headers e.mimeType e.etag e.modified now
    (host.allowRanges request e.mimeType e.bytes.length)

/-- What a live entry of the cache answers, and the artifact it asks for. -/
def respondCached (request : Request) (e : ContentEntry) (now : SystemTime) :
    Response × Option ArtifactWanted :=
  if host.tries304 request &&
      checkNotModified host.dates request.headers e.etag e.modified then
    let tag := if clientTagIsWeak request.headers e.etag then e.headers.weakEtag else e.headers.etag
    (build304 tag e.headers.lastModified (host.cacheControl.getD []), none)
  else
    let response := host.respondEntry request e now
    let encodes := !host.allowRanges request e.mimeType e.bytes.length
    match (host.coding request).filter fun _ => encodes with
    | none => (response, none)
    | some coding =>
      match e.artifacts coding with
      | .ready artifact =>
        let encoded :=
          { response with
            body := .full artifact, etag := response.etag.map fun _ => e.headers.weakEtag }
        (markEncoded encoded coding, none)
      | .absent => (response, some ⟨request.path, coding, e.bytes, e.modified⟩)
      | .rejected => (response, none)

def respondNotModified (request : Request) (size : Nat) (modified : SystemTime) :
    Option Response :=
  let etag := generateEtag size modified
  if host.tries304 request &&
      checkNotModified host.dates request.headers etag modified then
    let tag := if clientTagIsWeak request.headers etag then str "W/" ++ etag else etag
    some (build304 tag (host.dates.format modified) (host.cacheControl.getD []))
  else none

def contentHeaders (request : Request) (size : Nat) (modified : SystemTime) : ContentHeaders :=
  .new (host.mimeGuess request.path) size (generateEtag size modified)
    (host.dates.format modified)

/-- The entry that a file read whole is answered from, and kept as if it is small. -/
def contentEntry (request : Request) (bytes : Bytes) (modified : SystemTime) (now : Nat) :
    ContentEntry where
  key := request.path
  bytes := bytes
  mimeType := host.mimeGuess request.path
  modified := modified
  etag := generateEtag bytes.length modified
  headers := host.contentHeaders request bytes.length modified
  lastChecked := now
  artifacts := fun _ => .absent

/-- The file got shorter between `fstat` and the read. -/
def respondTruncated (request : Request) (bytes : Bytes) : Response :=
  { status := 200
    contentType := some (host.mimeGuess request.path)
    contentLength := some bytes.length
    body := .full bytes }

/-- Compression is worth the memory, if there is a permit. -/
def wantsOffDisk (request : Request) (size : Nat) : Bool :=
  maxCacheFileSize < size && (host.coding request).isSome && host.variesByEncoding request size

def respondStreamed (request : Request) (inode size : Nat) (modified now : SystemTime) :
    Response × Option Reading :=
  let etag := generateEtag size modified
  let varies := host.variesByEncoding request size
  let head : Response :=
    addCacheHeaders host.cacheControl etag (host.dates.format modified)
      { status := 200
        contentType := some (host.mimeGuess request.path)
        contentLength := some size
        acceptRanges := some (str "bytes")
        vary := varyLines varies
        body := .stream [] }
  match planRange host.dates request.method request.headers size etag modified now with
  | .notSatisfiable => (build416 size varies, none)
  | .full => (head, some ⟨inode, 0, size⟩)
  | .part start stop =>
    ({ head with
        status := 206
        contentLength := some (stop - start + 1)
        contentRange := some (contentRange start stop size) },
      some ⟨inode, start, stop - start + 1⟩)

/-- What the connection does to a response: compress it if it can, and say that it
varies. -/
def finish (request : Request) (response : Response) : Response :=
  let accepted := Acceptable.fromHeaders request.headers.acceptEncoding host.levels
  let encoded :=
    match accepted.perRequest with
    | none => response
    | some coding => maybeCompress host.compress response coding (host.levels.level coding)
  markVariesByEncoding encoded host.levels

end Host

/-! ## Status and coding -/

section Finish

variable {host : Host} {request : Request} {response : Response}

@[simp]
theorem status_finish : (host.finish request response).status = response.status := by
  unfold Host.finish
  dsimp only
  rw [status_markVariesByEncoding]
  split
  · rfl
  · exact status_maybeCompress

theorem finish_of_206 (h : response.status = 206) : host.finish request response = response := by
  unfold Host.finish
  dsimp only
  split
  · exact markVariesByEncoding_of_206 h
  · rw [maybeCompress_of_206 h]
    exact markVariesByEncoding_of_206 h

theorem encoded_finish (h : (host.finish request response).contentEncoding.isSome = true) :
    response.contentEncoding.isSome = true ∨
      (host.coding request).isSome = true ∧ response.status ≠ 206 ∧
        isCompressible (response.contentType.getD []) = true ∧
        ∃ bytes, response.body = .full bytes ∧ inWindow bytes.length = true := by
  by_cases he : response.contentEncoding.isSome = true
  · exact .inl he
  right
  have hs : response.status ≠ 206 := by
    intro hs
    rw [finish_of_206 hs] at h
    exact he h
  simp only [Host.finish, contentEncoding_markVariesByEncoding] at h
  split at h
  · exact absurd h he
  · next coding hc =>
    rcases encoded_maybeCompress h with h | ⟨htype, bytes, hb, hw⟩
    · exact absurd h he
    · refine ⟨?_, hs, htype, bytes, hb, hw⟩
      rw [Host.coding, ← Acceptable.isSome_perRequest, hc, Option.isSome_some]

end Finish

section Whole

variable {host : Host} {request : Request} {bytes : Bytes} {headers : ContentHeaders}
  {mimeType etag : Bytes} {modified now : SystemTime} {allowRanges : Bool} {plan : RangePlan}
  {cacheControl : Option Bytes} {tag lastModified : Bytes} {response : Response}

@[simp]
theorem status_addCacheHeaders :
    (addCacheHeaders cacheControl tag lastModified response).status = response.status := by
  cases cacheControl <;> rfl

@[simp]
theorem contentType_addCacheHeaders :
    (addCacheHeaders cacheControl tag lastModified response).contentType =
      response.contentType := by
  cases cacheControl <;> rfl

@[simp]
theorem contentLength_addCacheHeaders :
    (addCacheHeaders cacheControl tag lastModified response).contentLength =
      response.contentLength := by
  cases cacheControl <;> rfl

@[simp]
theorem contentRange_addCacheHeaders :
    (addCacheHeaders cacheControl tag lastModified response).contentRange =
      response.contentRange := by
  cases cacheControl <;> rfl

@[simp]
theorem contentEncoding_addCacheHeaders :
    (addCacheHeaders cacheControl tag lastModified response).contentEncoding =
      response.contentEncoding := by
  cases cacheControl <;> rfl

@[simp]
theorem body_addCacheHeaders :
    (addCacheHeaders cacheControl tag lastModified response).body = response.body := by
  cases cacheControl <;> rfl

/-- The response announces the bytes from `start` to `stop`, and what has been
yielded of its body is the beginning of them. -/
structure IsPart (response : Response) (bytes : Bytes) (start stop : Nat) : Prop where
  range : response.contentRange = some (contentRange start stop bytes.length)
  length : response.contentLength = some (stop - start + 1)
  yielded : response.body.bytes <+: slice bytes start stop

theorem contentEncoding_respondPlan :
    (host.respondPlan bytes headers mimeType allowRanges plan).contentEncoding = none := by
  cases plan with
  | full | part start stop => simp [Host.respondPlan]
  | notSatisfiable => rfl

theorem respondPlan_206
    (h : (host.respondPlan bytes headers mimeType allowRanges plan).status = 206) :
    ∃ start stop, plan = .part start stop ∧
      IsPart (host.respondPlan bytes headers mimeType allowRanges plan) bytes start stop := by
  cases plan with
  | full => simp [Host.respondPlan] at h
  | notSatisfiable => cases h
  | part start stop =>
    refine ⟨start, stop, rfl, ?_, ?_, ?_⟩
    all_goals simp [Host.respondPlan]

theorem respondBytes_206 (h : (host.respondBytes request bytes headers mimeType etag modified now
      allowRanges).status = 206) : allowRanges = true ∧ ∃ start stop,
      planRange host.dates request.method request.headers bytes.length etag modified now =
        .part start stop ∧
      IsPart (host.respondBytes request bytes headers mimeType etag modified now allowRanges)
        bytes start stop := by
  obtain ⟨start, stop, hp, hpa⟩ := respondPlan_206 h
  cases allowRanges with
  | false => cases hp
  | true => exact ⟨rfl, start, stop, hp, hpa⟩

theorem status_respondBytes_off : (host.respondBytes request bytes headers mimeType etag modified
    now false).status = 200 := by
  simp [Host.respondBytes, Host.respondPlan]

/-- What answers a range from the cache is not an artifact: one is only sent where ranges
are off. -/
theorem respondCached_range {e : ContentEntry}
    (h : (host.respondCached request e now).1.status = 206 ∨
      (host.respondCached request e now).1.status = 416) :
    (host.respondCached request e now).1 = host.respondEntry request e now := by
  unfold Host.respondCached at h ⊢
  dsimp only at h ⊢
  split at h
  · rcases h with h | h <;> cases h
  next hm =>
  rw [if_neg hm]
  split at h
  · rfl
  next coding hc =>
  split at h
  · obtain ⟨-, hoff⟩ := Option.filter_eq_some_iff.mp hc
    have hoff : host.allowRanges request e.mimeType e.bytes.length = false := by simpa using hoff
    rw [status_markEncoded, Host.respondEntry, hoff] at h
    change (host.respondBytes _ _ _ _ _ _ _ false).status = _ ∨ _ at h
    rw [status_respondBytes_off] at h
    rcases h with h | h <;> cases h
  · rfl
  · rfl

theorem encoded_respondBytes
    (h : (host.finish request (host.respondBytes request bytes headers mimeType etag modified now
      allowRanges)).contentEncoding.isSome = true) :
    (host.coding request).isSome = true ∧ isCompressible headers.contentType = true ∧
      inWindow bytes.length = true := by
  unfold Host.respondBytes at h
  generalize (if allowRanges then _ else _ : RangePlan) = plan at h
  rcases encoded_finish h with h | ⟨hc, hs, htype, body, hb, hw⟩
  · rw [contentEncoding_respondPlan] at h
    cases h
  refine ⟨hc, ?_⟩
  cases plan with
  | full =>
    simp only [Host.respondPlan, contentType_addCacheHeaders, body_addCacheHeaders,
      Body.full.injEq, Option.getD_some] at htype hb
    exact ⟨htype, hb ▸ hw⟩
  | part start stop => simp [Host.respondPlan] at hs
  | notSatisfiable =>
    -- the text of a 416 is below the window
    cases hb
    exact absurd hw (by decide)

end Whole

end OxPhp.Server.Static
