import OxPhp.Routing.History

/-!
# Which files a route can name

Two guarantees over every request history and every file system.  A route that
serves or executes a file the operator did not configure names it by a path
under the document root with no dot segment in it.  A static route never names
a `.php` file.
-/

namespace OxPhp.Routing

open ByteStr UnixPath OxPhp.Config

/-! ## Segments of the paths dispatch builds -/

theorem plain_indexPhp : Plain [str "index.php"] := .singleton (by decide) (by decide)

theorem plain_indexHtml : Plain [str "index.html"] := .singleton (by decide) (by decide)

variable {name uri decoded : Bytes} {segs : List Bytes}

theorem Screened.singleton (hk : keepsSegment name = true)
    (hs : slash ∉ name) (hdot : startsWithByte dot name = false) : Screened [name] where
  slash_free := by simpa using hs
  kept := by simpa using hk
  dot_safe := .inl (by simpa using hdot)

theorem Screened.append_name (h : Screened segs)
    (hn : Screened [name]) (hdot : startsWithByte dot name = false) :
    Screened (segs ++ [name]) where
  slash_free seg hseg :=
    (List.mem_append.mp hseg).elim (h.slash_free seg) (hn.slash_free seg)
  kept seg hseg := (List.mem_append.mp hseg).elim (h.kept seg) (hn.kept seg)
  dot_safe := by
    have hlast : ∀ seg ∈ [name], startsWithByte dot seg = false := by simpa using hdot
    rcases h.dot_safe with hc | ⟨next, rest, rfl, hc⟩
    · exact .inl fun seg hseg => (List.mem_append.mp hseg).elim (hc seg) (hlast seg)
    · exact .inr ⟨next, rest ++ [name], rfl, fun seg hseg =>
        (List.mem_append.mp (by simpa using hseg)).elim (hc seg) (hlast seg)⟩

theorem Screened.of_append {front back : List Bytes} (h : Screened (front ++ back))
    (hne : front ≠ [wellKnown]) : Screened front where
  slash_free seg hseg := h.slash_free seg (List.mem_append_left _ hseg)
  kept seg hseg := h.kept seg (List.mem_append_left _ hseg)
  dot_safe := by
    rcases h.dot_safe with hc | ⟨next, rest, heq, hc⟩
    · exact .inl fun seg hseg => hc seg (List.mem_append_left _ hseg)
    · match front with
      | [] => exact .inl (by simp)
      | [first] =>
        cases heq
        exact absurd rfl hne
      | first :: second :: front =>
        cases heq
        exact .inr ⟨next, front, rfl, fun seg hseg => hc seg (by
          rcases List.mem_cons.mp hseg with rfl | hmem
          · exact List.mem_cons_self
          · exact List.mem_cons_of_mem _ (List.mem_append_left _ hmem))⟩

theorem Screened.segments_join (h : Screened segs)
    (hne : joinSegments segs ≠ []) : segs ≠ [] ∧ segments (joinSegments segs) = segs := by
  have hs : segs ≠ [] := by
    rintro rfl
    exact hne rfl
  exact ⟨hs, (h.plain hs).segments_join⟩

theorem Screened.exists_last (hs : Screened segs) (hne : joinSegments segs ≠ []) :
    ∃ init last, segs = init ++ [last] ∧ Plain (init ++ [last]) ∧ last ≠ [dot, dot] := by
  obtain ⟨hse, -⟩ := hs.segments_join hne
  obtain ⟨init, last, rfl⟩ := List.eq_nil_or_concat segs |>.resolve_left hse
  rw [List.concat_eq_append] at hs hse ⊢
  refine ⟨init, last, rfl, hs.plain hse, ?_⟩
  rintro rfl
  exact absurd (hs.kept [dot, dot] (by simp)) (by decide)

theorem plain_of_admitted (hadm : admitted uri = some decoded)
    (hne : sanitizePath decoded ≠ []) : Plain (keptSegments decoded) := by
  have hs := screened_of_admitted hadm
  rw [sanitizePath_eq] at hne
  exact hs.plain (hs.segments_join hne).1

theorem stripPrefix_sanitized (root : Bytes)
    (hadm : admitted uri = some decoded) (hne : sanitizePath decoded ≠ []) :
    stripPrefix (join root (sanitizePath decoded)) root = some (sanitizePath decoded) := by
  rw [sanitizePath_eq]
  exact stripPrefix_join root (plain_of_admitted hadm hne)

theorem PathInfoSplit.segments {fs : FileSystem} {root script rest : Bytes}
    (hs : Screened segs) (h : PathInfoSplit fs root (joinSegments segs) script rest) :
    ∃ front back, front ≠ [] ∧ Screened front ∧ script = joinSegments front ∧
      segs = front ++ back := by
  have hne : script ≠ [] := by
    rintro rfl
    exact absurd h.names_script (by decide)
  have hj : joinSegments segs ≠ [] := by
    rw [h.append]
    simp [hne]
  obtain ⟨-, hse⟩ := hs.segments_join hj
  obtain ⟨back, hb⟩ : ∃ back, segs = ByteStr.segments script ++ back := by
    rw [← hse, h.append]
    rcases h.boundary with rfl | hsl
    · exact ⟨[], by simp⟩
    · obtain ⟨tail, rfl⟩ := List.head?_eq_some_iff.mp hsl
      exact ⟨ByteStr.segments tail, segments_append_slash script tail⟩
  refine ⟨ByteStr.segments script, back, segments_ne_nil script, ?_,
    (joinSegments_segments script).symm, hb⟩
  refine (hb ▸ hs).of_append ?_
  intro hw
  have hsc : script = wellKnown := by
    rw [← joinSegments_segments script, hw]
    rfl
  exact absurd (hsc ▸ h.names_script) (by decide)

/-! ## Paths under the document root -/

/-- The operator named this file: the worker's script, the entry file of the
mode, or a fallback script. -/
def RouteConfig.Configured (config : RouteConfig) (path : Bytes) : Prop :=
  (∃ pathInfo deniedMeta, config.workerRoute = some (.execute path pathInfo deniedMeta)) ∨
    (∃ r, config.mode = .framework r ∧ path = r.indexFilePath) ∨
    (∃ r, config.mode = .spa r ∧ path = r.indexFilePath) ∨
    ∃ uri, config.phpDeny.map PhpDeny.fallback = some (.script path uri) ∨
      config.denyFileFallback = some (.script path uri)

section Paths

variable {config : RouteConfig} {fs : FileSystem} {route : RouteResult} {path : Bytes}

theorem Denial.configured (h : Denial config route) (hp : route.resolved = some path) :
    config.Configured path := by
  obtain ⟨fallback, source, uri, pattern, hf, rfl⟩ := h
  cases fallback with
  | status code => cases hp
  | script script scriptUri =>
    cases hp
    exact .inr (.inr (.inr ⟨scriptUri, hf⟩))

theorem Dispatched.path_screened (hs : Screened segs)
    (h : Dispatched config fs (joinSegments segs) route) (hpa : route.resolved = some path)
    (hc : ¬config.Configured path) :
    ∃ rel, rel ≠ [] ∧ Screened rel ∧ path = join config.documentRoot (joinSegments rel) := by
  have hp : Screened [str "index.php"] := .singleton (by decide) (by decide) (by decide)
  have hh : Screened [str "index.html"] := .singleton (by decide) (by decide) (by decide)
  have hse : joinSegments segs ≠ [] → segs ≠ [] := fun hne => (hs.segments_join hne).1
  have hphp : hasPhpComponent (joinSegments segs) = true → joinSegments segs ≠ [] := by
    intro hphp hnil
    rw [hnil] at hphp
    cases hphp
  cases h with
  | notFound => cases hpa
  | denied hdenied => exact absurd (hdenied.configured hpa) hc
  | worker hmode hworker =>
    cases hpa
    exact absurd (.inl ⟨none, none, hworker⟩) hc
  | namedScript _ hco _ =>
    cases hpa
    exact ⟨segs, hse (hphp hco), hs, rfl⟩
  | split _ _ hsplit =>
    cases hpa
    obtain ⟨front, -, hne, hf, rfl, -⟩ := hsplit.segments hs
    exact ⟨front, hne, hf, rfl⟩
  | indexPhp _ _ hne _ _ _ =>
    cases hpa
    exact ⟨segs ++ [str "index.php"], by simp, hs.append_name hp (by decide),
      join_join _ (hs.plain (hse hne)) plain_indexPhp⟩
  | indexHtml _ _ hne =>
    cases hpa
    exact ⟨segs ++ [str "index.html"], by simp, hs.append_name hh (by decide),
      join_join _ (hs.plain (hse hne)) plain_indexHtml⟩
  | rootPhp _ =>
    cases hpa
    exact ⟨[str "index.php"], by simp, hp, by rw [joinSegments_singleton]⟩
  | rootHtml _ =>
    cases hpa
    exact ⟨[str "index.html"], by simp, hh, by rw [joinSegments_singleton]⟩
  | static _ hne =>
    cases hpa
    exact ⟨segs, hse hne, hs, rfl⟩
  | frontController hmode =>
    cases hpa
    exact absurd (.inr (.inl ⟨_, hmode, rfl⟩)) hc
  | page hmode =>
    cases hpa
    exact absurd (.inr (.inr (.inl ⟨_, hmode, rfl⟩))) hc

theorem resolveDecoded_path_screened {uri decoded : Bytes} (hadm : admitted uri = some decoded)
    (hp : (config.resolveDecoded fs decoded).1.resolved = some path)
    (hc : ¬config.Configured path) :
    ∃ rel, rel ≠ [] ∧ Screened rel ∧ path = join config.documentRoot (joinSegments rel) := by
  rcases RouteConfig.resolveDecoded_cases config fs decoded with hnot | hd | ⟨toEntry, -, heq⟩
  · rw [hnot] at hp
    cases hp
  · exact absurd (hd.configured hp) hc
  · have hdi := RouteConfig.dispatched_dispatch config fs (sanitizePath decoded) toEntry
    rw [← heq, sanitizePath_eq] at hdi
    exact hdi.path_screened (screened_of_admitted hadm) hp hc

end Paths

/-- **Routes stay under the document root.** Whatever the history, the file a
request is routed to is one the operator configured, or the document root
joined with a non-empty list of segments none of which is empty, `.`, `..` or
starts with `.`, other than a first `.well-known` that another segment
follows. -/
theorem routed_path_screened (config : RouteConfig) (hroot : config.entryRoute = none)
    (history : List Request) (fs : FileSystem) (uri path : Bytes)
    (hpath : (config.resolveRequest fs (config.cacheAfter history) uri).1.resolved = some path)
    (hconf : ¬config.Configured path) : ∃ segs, segs ≠ [] ∧ Screened segs ∧
      path = join config.documentRoot (joinSegments segs) := by
  rcases RouteConfig.answer_computed hroot history fs uri with hm | ⟨fs', decoded, hadm, heq⟩
  · rw [hm] at hpath
    cases hpath
  · rw [← heq] at hpath
    exact resolveDecoded_path_screened hadm hpath hconf

theorem routed_path_screened_style_css : ∃ segs, segs ≠ [] ∧ Screened segs ∧
      str "/srv/css/style.css" = join (str "/srv") (joinSegments segs) :=
  routed_path_screened (.plainTraditional (str "/srv")) rfl []
    (.ofLists [str "/srv/css/style.css"] []) (str "/css/style.css")
    (str "/srv/css/style.css") (by decide) (by
      rintro (⟨_, _, h⟩ | ⟨_, h, _⟩ | ⟨_, h, _⟩ | ⟨_, h | h⟩) <;> cases h)

/-! ## Static files -/

section Static

variable {config : RouteConfig} {fs : FileSystem} {path : Bytes}

/-- The path relative to the root is relative and none of its components ends in
`.php`. -/
structure StaticUnder (root path rel : Bytes) : Prop where
  relative : isAbsolute rel = false
  path_eq : path = join root rel
  no_php : ∀ seg ∈ segments rel, namesAScript seg = false

theorem StaticUnder.of_plain (root : Bytes) {rel : List Bytes} (hp : Plain rel)
    (hphp : ∀ seg ∈ rel, namesAScript seg = false) :
    StaticUnder root (join root (joinSegments rel)) (joinSegments rel) where
  relative := hp.isAbsolute_join
  path_eq := rfl
  no_php := by rwa [hp.segments_join]

theorem no_php_of_hasPhpComponent {s : Bytes} (h : hasPhpComponent s = false) :
    ∀ seg ∈ segments s, namesAScript seg = false := by
  intro seg hseg
  by_contra hphp
  rw [hasPhpComponent_iff.mpr ⟨seg, hseg, by simpa using hphp⟩] at h
  cases h

theorem Dispatched.serve_static (hs : Screened segs)
    (h : Dispatched config fs (joinSegments segs) (.serve path)) :
    ∃ rel, StaticUnder config.documentRoot path rel := by
  generalize hr : RouteResult.serve path = route at h
  have hp : joinSegments segs ≠ [] → Plain segs := fun hne =>
    hs.plain (hs.segments_join hne).1
  have hphp : joinSegments segs ≠ [] → hasPhpComponent (joinSegments segs) = false →
      ∀ seg ∈ segs, namesAScript seg = false := by
    intro hne hc
    rw [← (hs.segments_join hne).2]
    exact no_php_of_hasPhpComponent hc
  have hh : ∀ seg ∈ [str "index.html"], namesAScript seg = false := by decide
  cases h with
  | denied hdenied =>
    obtain ⟨fallback, source, uri, pattern, -, rfl⟩ := hdenied
    cases fallback <;> cases hr
  | indexHtml _ hc hne =>
    cases hr
    rw [join_join _ (hp hne) plain_indexHtml]
    refine ⟨_, .of_plain _ ((hp hne).append plain_indexHtml) fun seg hseg => ?_⟩
    exact (List.mem_append.mp hseg).elim (hphp hne hc seg) (hh seg)
  | rootHtml _ =>
    cases hr
    have hu := StaticUnder.of_plain config.documentRoot plain_indexHtml hh
    exact ⟨_, by rwa [joinSegments_singleton] at hu⟩
  | static hc hne =>
    cases hr
    exact ⟨_, .of_plain _ (hp hne) (hphp hne hc)⟩
  | page hmode =>
    cases hr
    have hb := config.built
    rw [hmode] at hb
    obtain ⟨name, ext, he, hext, rfl⟩ := hb
    have hn : ∀ seg ∈ [name], namesAScript seg = false := by
      intro seg hseg
      rw [List.mem_singleton.mp hseg]
      by_contra hsc
      rw [he.ext_php (by simpa using hsc)] at hext
      cases hext
    have hu := StaticUnder.of_plain config.documentRoot he.plain hn
    exact ⟨_, by rwa [joinSegments_singleton] at hu⟩
  | _ => cases hr

end Static

/-- **PHP source is never a static file.** Whatever the history, a route that
serves a file names it by a path relative to the document root with no
component that ends in `.php`. -/
theorem served_path_no_php (config : RouteConfig) (hroot : config.entryRoute = none)
    (history : List Request) (fs : FileSystem) (uri path : Bytes)
    (hserve : (config.resolveRequest fs (config.cacheAfter history) uri).1 = .serve path) :
    ∃ rel, StaticUnder config.documentRoot path rel := by
  rcases RouteConfig.answer_computed hroot history fs uri with hm | ⟨fs', decoded, hadm, heq⟩
  · rw [hm] at hserve
    cases hserve
  · rw [hserve] at heq
    obtain ⟨toEntry, -, hd⟩ :=
      RouteConfig.dispatched_of_resolveDecoded heq (by simp) rfl
    rw [sanitizePath_eq] at hd
    exact hd.serve_static (screened_of_admitted hadm)

theorem served_path_no_php_readme : ∃ rel, StaticUnder (str "/srv") (str "/srv/docs/README") rel :=
  served_path_no_php (.plainTraditional (str "/srv")) rfl []
    (.ofLists [str "/srv/docs/README"] []) (str "/docs/README")
    (str "/srv/docs/README") (by decide)

end OxPhp.Routing
