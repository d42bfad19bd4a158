import OxPhp.Routing.Resolve

/-!
# Request histories

Requests one after another, each under a file system of its own, with the route
cache carried along.  What the cache holds is an answer that an earlier request to
the same path computed.
-/

namespace OxPhp.Routing

open ByteStr UnixPath OxPhp.Config

structure Request where
  fs : FileSystem
  uri : Bytes

structure Served where
  cache : RouteCache
  request : Request
  route : RouteResult

namespace RouteConfig

variable (config : RouteConfig)

/-- The requests of a history with their answers, from a given cache. -/
def trace (cache : RouteCache) : List Request → List Served
  | [] => []
  | req :: reqs =>
    let answer := config.resolveRequest req.fs cache req.uri
    { cache, request := req, route := answer.1 } :: trace answer.2 reqs

def cacheAfter (history : List Request) : RouteCache :=
  history.foldl (fun cache req => (config.resolveRequest req.fs cache req.uri).2)
    (Lru.empty routeCacheCapacity)

end RouteConfig

/-- The decoded form of a path that the screens before the cache let through. -/
def admitted (uri : Bytes) : Option Bytes :=
  match dotScreen uri with
  | none => none
  | some preDecoded => preDecoded.or (decodeUtf8 uri)

/-- The request is not answered from the cache, and meets `Bad` once decoded. -/
def Served.Resolves (Bad : FileSystem → Bytes → Prop) (served : Served) : Prop :=
  served.cache.peek served.request.uri = none ∧
    ∃ decoded, admitted served.request.uri = some decoded ∧ Bad served.request.fs decoded

theorem screened_of_admitted {uri decoded : Bytes} (h : admitted uri = some decoded) :
    Screened (keptSegments decoded) := by
  unfold admitted dotScreen at h
  split at h
  · cases h
  · next preDecoded hs =>
    split at hs
    · split at hs
      · cases hs
      · split at hs
        · cases hs
        · next hb =>
          cases hs
          cases h
          exact screened_of_not_blocked (Bool.eq_false_iff.mpr hb)
    · next hm =>
      cases hs
      have hc := Bool.eq_false_iff.mpr hm
      have hsa : decoded = uri := by
        rw [decodeUtf8_eq_some h]
        exact percentDecode_of_percent_not_mem (hasDotSegmentMarkers_false hc).1
      subst hsa
      exact screened_of_no_markers hc

namespace RouteConfig

variable {config : RouteConfig} {fs : FileSystem} {cache : RouteCache} {uri : Bytes}

/-- **Inversion of a request** to a server with a document root: refused by the
screens, answered from the cache, or resolved. -/
theorem resolveRequest_cases (hr : config.entryRoute = none) (fs : FileSystem)
    (cache : RouteCache) (uri : Bytes) : (cache.peek uri = none → admitted uri = none) ∧
        config.resolveRequest fs cache uri = (.notFound, cache) ∨
      (∃ route, cache.peek uri = some route ∧
        config.resolveRequest fs cache uri = (route, cache)) ∨
      ∃ decoded, admitted uri = some decoded ∧ cache.peek uri = none ∧
        config.resolveRequest fs cache uri = ((config.resolveDecoded fs decoded).1,
            if (config.resolveDecoded fs decoded).2 then
              cache.put uri (config.resolveDecoded fs decoded).1 else cache) := by
  unfold resolveRequest admitted
  rw [hr]
  simp only
  cases hs : dotScreen uri with
  | none => exact .inl ⟨fun _ => rfl, rfl⟩
  | some preDecoded =>
    cases hp : cache.peek uri with
    | some route => exact .inr (.inl ⟨route, rfl, rfl⟩)
    | none =>
      cases hd : preDecoded.or (decodeUtf8 uri) with
      | none => exact .inl ⟨fun _ => hd, by simp only [hd]⟩
      | some decoded => exact .inr (.inr ⟨decoded, hd, rfl, by simp only [hd]⟩)

/-- A route that resolving `uri` gave, and that may be cached. -/
def Computed (config : RouteConfig) (uri : Bytes) (route : RouteResult) : Prop :=
  ∃ fs decoded, admitted uri = some decoded ∧ config.resolveDecoded fs decoded = (route, true)

theorem computed_step (hr : config.entryRoute = none) (h : cache.All config.Computed) :
    (config.resolveRequest fs cache uri).2.All config.Computed := by
  obtain ⟨-, heq⟩ | ⟨route, -, heq⟩ | ⟨decoded, hadm, -, heq⟩ :=
    resolveRequest_cases hr fs cache uri
  · rw [heq]
    exact h
  · rw [heq]
    exact h
  · rw [heq]
    split
    · next hc => exact h.put ⟨fs, decoded, hadm, Prod.ext rfl hc⟩
    · exact h

theorem computed_cacheAfter (hr : config.entryRoute = none) (history : List Request) :
    (config.cacheAfter history).All config.Computed := by
  unfold cacheAfter
  generalize hin : Lru.empty routeCacheCapacity = cache
  have hall : cache.All config.Computed := hin ▸ Lru.all_empty _ _
  clear hin
  induction history generalizing cache with
  | nil => exact hall
  | cons req history ih => exact ih _ (computed_step hr hall)

/-- **Answers are computed answers.** Whatever the history, a request is
answered with a miss or with a route that resolving it gives under some file
system: the present one, or that of an earlier request. -/
theorem answer_computed (hr : config.entryRoute = none) (history : List Request)
    (fs : FileSystem) (uri : Bytes) :
    (config.resolveRequest fs (config.cacheAfter history) uri).1 = .notFound ∨
      ∃ fs' decoded, admitted uri = some decoded ∧ (config.resolveDecoded fs' decoded).1 =
          (config.resolveRequest fs (config.cacheAfter history) uri).1 := by
  obtain ⟨-, heq⟩ | ⟨route, hp, heq⟩ | ⟨decoded, hadm, -, heq⟩ :=
    resolveRequest_cases hr fs (config.cacheAfter history) uri
  · exact .inl (by rw [heq])
  · obtain ⟨fs', decoded, hadm, hro⟩ := (computed_cacheAfter hr history).peek hp
    exact .inr ⟨fs', decoded, hadm, by rw [heq, hro]⟩
  · exact .inr ⟨fs, decoded, hadm, by rw [heq]⟩

/-! ## A property of every answer of a run -/

/-- **Run rule.** Where a resolved route has `P` exactly when its request is not
`Bad`, every answer of a run has `P` exactly when the run resolves no `Bad`
request: a cached answer was computed in the run. -/
theorem trace_forall_iff (hr : config.entryRoute = none) {P : RouteResult → Prop}
    {Bad : FileSystem → Bytes → Prop} (hm : P .notFound)
    (hs : ∀ fs uri decoded, admitted uri = some decoded →
      (P (config.resolveDecoded fs decoded).1 ↔ ¬Bad fs decoded))
    (reqs : List Request) {cache : RouteCache} (hc : cache.All fun _ route => P route) :
    (∀ served ∈ config.trace cache reqs, P served.route) ↔
      ∀ served ∈ config.trace cache reqs, ¬served.Resolves Bad := by
  induction reqs generalizing cache with
  | nil => simp [trace]
  | cons req reqs ih =>
    simp only [trace, List.forall_mem_cons, Served.Resolves]
    obtain ⟨hn, heq⟩ | ⟨route, hp, heq⟩ | ⟨decoded, hadm, hp, heq⟩ :=
      resolveRequest_cases hr req.fs cache req.uri
    · rw [heq]
      refine and_congr (iff_of_true hm ?_) (ih hc)
      rintro ⟨hp, decoded, hadm, -⟩
      rw [hn hp] at hadm
      cases hadm
    · rw [heq]
      refine and_congr (iff_of_true (hc.peek hp) ?_) (ih hc)
      rintro ⟨hn, -⟩
      rw [hp] at hn
      cases hn
    · have hh : P (config.resolveDecoded req.fs decoded).1 ↔
          ¬(cache.peek req.uri = none ∧
            ∃ decoded, admitted req.uri = some decoded ∧ Bad req.fs decoded) := by
        simp [hs req.fs req.uri decoded hadm, hp, hadm]
      by_cases hg : P (config.resolveDecoded req.fs decoded).1
      · refine and_congr (by rw [heq]; exact hh) (ih ?_)
        rw [heq]
        split
        · exact hc.put hg
        · exact hc
      · rw [heq]
        exact iff_of_false (fun h => hg h.1) fun h => hg (hh.mpr h.1)

end RouteConfig

end OxPhp.Routing
