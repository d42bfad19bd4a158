import OxPhp.Routing.UriPath

/-!
# Mode routers

`server/routing/{traditional,framework,spa,worker}.rs`.  A router reads the disk
only through the file cache's probes: a `FileSystem` is what they answer during
one request.
-/

namespace OxPhp.Routing

open ByteStr UnixPath OxPhp.Config

inductive FileType where
  | file
  | dir
  deriving DecidableEq

structure FileSystem where
  metadata : Bytes → Option FileType
  canonicalize : Bytes → Option Bytes

def FileSystem.isFile (fs : FileSystem) (path : Bytes) : Bool := fs.metadata path = some .file

def FileSystem.isDir (fs : FileSystem) (path : Bytes) : Bool := fs.metadata path = some .dir

def FileSystem.ofLists (files dirs : List Bytes) : FileSystem where
  metadata path := if path ∈ files then some .file else if path ∈ dirs then some .dir else none
  canonicalize path := some path

inductive RouteResult where
  | execute (path : Bytes) (pathInfo : Option Bytes) (deniedMeta : Option DeniedMeta)
  | serve (path : Bytes)
  | notFound
  | denied (status : Nat) (source : DenySource)
  deriving DecidableEq

def RouteResult.resolved : RouteResult → Option Bytes
  | .serve path => some path
  | .execute path _ _ => some path
  | .notFound => none
  | .denied _ _ => none

/-! ## Traditional: direct file mapping -/

structure TraditionalRouter where
  rootIndexPhp : Bytes
  rootIndexHtml : Bytes

namespace TraditionalRouter

def new (documentRoot : Bytes) : TraditionalRouter where
  rootIndexPhp := join documentRoot (str "index.php")
  rootIndexHtml := join documentRoot (str "index.html")

/-- Root `/index.php`, then `/index.html`, then nothing. -/
def rootFallback (r : TraditionalRouter) (fs : FileSystem) : RouteResult :=
  if fs.isFile r.rootIndexPhp then .execute r.rootIndexPhp none none
  else if fs.isFile r.rootIndexHtml then .serve r.rootIndexHtml
  else .notFound

/-- The walk of `trySplitPathInfo` from the bytes read so far to the rest. -/
def splitFrom (fs : FileSystem) (documentRoot : Bytes) (seen : Bytes) :
    Bytes → Option RouteResult
  | a :: b :: c :: d :: rest =>
    if a = dot && (b = 112 || b = 80) && (c = 104 || c = 72) && (d = 112 || d = 80) then
      let scriptPart := seen ++ [a, b, c, d]
      if !rest.isEmpty && rest.head? ≠ some slash then splitFrom fs documentRoot scriptPart rest
      else
        let candidate := join documentRoot scriptPart
        if fs.isFile candidate then
          some (.execute candidate (if rest.isEmpty then none else some rest) none)
        else splitFrom fs documentRoot scriptPart rest
    else splitFrom fs documentRoot (seen ++ [a]) (b :: c :: d :: rest)
  | _ => none

/-- Walk `.php` component boundaries looking for a real script file. -/
def trySplitPathInfo (fs : FileSystem) (documentRoot sanitized : Bytes) : Option RouteResult :=
  splitFrom fs documentRoot [] sanitized

def resolveNoExtension (r : TraditionalRouter) (fs : FileSystem)
    (documentRoot sanitized : Bytes) : RouteResult :=
  if sanitized.isEmpty then r.rootFallback fs
  else
    let filePath := join documentRoot sanitized
    if fs.isFile filePath then .serve filePath
    else if fs.isDir filePath then
      let phpIdx := join filePath (str "index.php")
      let htmlIdx := join filePath (str "index.html")
      if fs.isFile phpIdx then .execute phpIdx none none
      else if fs.isFile htmlIdx then .serve htmlIdx
      else r.rootFallback fs
    else r.rootFallback fs

def resolvePhp (r : TraditionalRouter) (fs : FileSystem) (documentRoot sanitized : Bytes) :
    RouteResult :=
  let filePath := join documentRoot sanitized
  if fs.isFile filePath then .execute filePath none none
  else (trySplitPathInfo fs documentRoot sanitized).getD (r.rootFallback fs)

def resolveStaticMiss (r : TraditionalRouter) (fs : FileSystem) : RouteResult :=
  r.rootFallback fs

end TraditionalRouter

/-! ## Framework: one front controller -/

structure FrameworkRouter where
  indexFilePath : Bytes
  entrySegment : Bytes

namespace FrameworkRouter

def new (documentRoot indexFile : Bytes) : FrameworkRouter where
  indexFilePath := join documentRoot indexFile
  entrySegment := indexFile

/-- Every path runs the front controller. Only a path that names it and goes on
has a PATH_INFO. -/
def rewrite (r : FrameworkRouter) (fs : FileSystem) (sanitized : Bytes) : RouteResult :=
  if !fs.isFile r.indexFilePath then .notFound
  else
    let pathInfo := (sanitized.dropPrefix? r.entrySegment).filter (startsWithByte slash)
    .execute r.indexFilePath pathInfo none

@[reducible] def resolveNoExtension (r : FrameworkRouter) (fs : FileSystem) (sanitized : Bytes) :
    RouteResult :=
  r.rewrite fs sanitized

@[reducible] def resolvePhp (r : FrameworkRouter) (fs : FileSystem) (sanitized : Bytes) :
    RouteResult :=
  r.rewrite fs sanitized

@[reducible] def resolveStaticMiss (r : FrameworkRouter) (fs : FileSystem) (sanitized : Bytes) :
    RouteResult :=
  r.rewrite fs sanitized

end FrameworkRouter

/-! ## SPA: one static page -/

structure SpaRouter where
  indexFilePath : Bytes

namespace SpaRouter

def new (documentRoot indexFile : Bytes) : SpaRouter where
  indexFilePath := join documentRoot indexFile

def resolveNoExtension (r : SpaRouter) (fs : FileSystem) : RouteResult :=
  if fs.isFile r.indexFilePath then .serve r.indexFilePath else .notFound

def resolvePhp (fs : FileSystem) (documentRoot sanitized : Bytes) : RouteResult :=
  let filePath := join documentRoot sanitized
  if fs.isFile filePath then .execute filePath none none else .notFound

end SpaRouter

/-! ## Dispatch by mode -/

/-- Routing mode dispatch. The worker router has no state of its own. -/
inductive Mode where
  | traditional (r : TraditionalRouter)
  | framework (r : FrameworkRouter)
  | spa (r : SpaRouter)
  | worker

/-- Whether routing may run a `.php` segment of the path as the script, with the
rest as PATH_INFO. -/
def Mode.splitsPathInfo : Mode → Bool
  | .traditional _ => true
  | _ => false

structure ResolveCtx where
  documentRoot : Bytes
  fs : FileSystem
  workerRoute : Option RouteResult

/-! ### Worker: one persistent script -/

namespace WorkerRouter

def dispatch (ctx : ResolveCtx) : RouteResult := ctx.workerRoute.getD .notFound

@[reducible] def resolveNoExtension (ctx : ResolveCtx) : RouteResult := dispatch ctx

@[reducible] def resolvePhp (ctx : ResolveCtx) : RouteResult := dispatch ctx

@[reducible] def resolveStaticMiss (ctx : ResolveCtx) : RouteResult := dispatch ctx

end WorkerRouter

namespace Mode

def resolveNoExtension (mode : Mode) (sanitized : Bytes) (ctx : ResolveCtx) : RouteResult :=
  match mode with
  | .traditional r => r.resolveNoExtension ctx.fs ctx.documentRoot sanitized
  | .framework r => r.resolveNoExtension ctx.fs sanitized
  | .spa r => r.resolveNoExtension ctx.fs
  | .worker => WorkerRouter.resolveNoExtension ctx

def resolvePhp (mode : Mode) (sanitized : Bytes) (ctx : ResolveCtx) : RouteResult :=
  match mode with
  | .traditional r => r.resolvePhp ctx.fs ctx.documentRoot sanitized
  | .framework r => r.resolvePhp ctx.fs sanitized
  | .spa _ => SpaRouter.resolvePhp ctx.fs ctx.documentRoot sanitized
  | .worker => WorkerRouter.resolvePhp ctx

def resolveStaticMiss (mode : Mode) (sanitized : Bytes) (ctx : ResolveCtx) : RouteResult :=
  match mode with
  | .traditional r => r.resolveStaticMiss ctx.fs
  | .framework r => r.resolveStaticMiss ctx.fs sanitized
  | .spa _ => .notFound
  | .worker => WorkerRouter.resolveStaticMiss ctx

end Mode

/-! ## The PATH_INFO split -/

theorem marker_iff {a b c d : UInt8} :
    (a = dot && (b = 112 || b = 80) && (c = 104 || c = 72) && (d = 112 || d = 80)) = true ↔
      eqIgnoreAsciiCase [a, b, c, d] (str ".php") = true := by
  have hp : ∀ b, toAsciiLower b = 112 ↔ b = 112 ∨ b = 80 := forall_byte (by decide +kernel)
  have hh : ∀ b, toAsciiLower b = 104 ↔ b = 104 ∨ b = 72 := forall_byte (by decide +kernel)
  simp only [eqIgnoreAsciiCase_dotPhp_iff, List.cons.injEq, and_true, Bool.and_eq_true,
    Bool.or_eq_true, decide_eq_true_eq, hp, hh]
  constructor
  · rintro ⟨⟨⟨ha, hb⟩, hc⟩, hd⟩
    exact ⟨b, c, d, ⟨ha, rfl, rfl, rfl⟩, hb, hc, hd⟩
  · rintro ⟨b, c, d, ⟨ha, rfl, rfl, rfl⟩, hb, hc, hd⟩
    exact ⟨⟨⟨ha, hb⟩, hc⟩, hd⟩

/-- A script the split finds, with the rest of the path as PATH_INFO. -/
structure PathInfoSplit (fs : FileSystem) (documentRoot sanitized script rest : Bytes) :
    Prop where
  append : sanitized = script ++ rest
  boundary : rest = [] ∨ rest.head? = some slash
  names_script : namesAScript script = true
  is_file : fs.isFile (join documentRoot script) = true

section Split

variable {fs : FileSystem} {documentRoot seen text : Bytes}

/-- After the bytes read, a `.php` before a `/` or the end that names a script. -/
structure ScriptAt (fs : FileSystem) (documentRoot seen text stem ext rest : Bytes) : Prop where
  append : text = stem ++ (ext ++ rest)
  boundary : rest = [] ∨ rest.head? = some slash
  php : eqIgnoreAsciiCase ext (str ".php") = true
  is_file : fs.isFile (join documentRoot (seen ++ (stem ++ ext))) = true

/-- The walk answers with the first script of the text, if there is one. -/
def FirstScript (fs : FileSystem) (documentRoot seen text : Bytes) : Option RouteResult → Prop
  | none => ∀ stem ext rest, ¬ScriptAt fs documentRoot seen text stem ext rest
  | some r => ∃ stem ext rest, ScriptAt fs documentRoot seen text stem ext rest ∧
      r = .execute (join documentRoot (seen ++ (stem ++ ext)))
        (if rest.isEmpty then none else some rest) none ∧
      ∀ stem' ext' rest', ScriptAt fs documentRoot seen text stem' ext' rest' →
        stem.length ≤ stem'.length

theorem FirstScript.skip (skipped : Bytes) {r : Option RouteResult}
    (h : FirstScript fs documentRoot (seen ++ skipped) text r)
    (hs : ∀ stem ext rest, ScriptAt fs documentRoot seen (skipped ++ text) stem ext rest →
      skipped.length ≤ stem.length) : FirstScript fs documentRoot seen (skipped ++ text) r := by
  have hl : ∀ stem ext rest, ScriptAt fs documentRoot seen (skipped ++ text) stem ext rest →
      ∃ stem', stem = skipped ++ stem' ∧
        ScriptAt fs documentRoot (seen ++ skipped) text stem' ext rest := by
    intro stem ext rest hat
    obtain ⟨stem', rfl⟩ : skipped <+: stem := List.prefix_of_prefix_length_le
      (List.prefix_append skipped text) ⟨ext ++ rest, hat.append.symm⟩ (hs stem ext rest hat)
    refine ⟨stem', rfl, ⟨?_, hat.boundary, hat.php, by simpa using hat.is_file⟩⟩
    simpa using hat.append
  cases r with
  | none =>
    intro stem ext rest hat
    obtain ⟨stem', -, hat'⟩ := hl stem ext rest hat
    exact h stem' ext rest hat'
  | some r =>
    obtain ⟨stem, ext, rest, hat, hr, hfirst⟩ := h
    refine ⟨skipped ++ stem, ext, rest, ⟨by simp [hat.append], hat.boundary, hat.php, ?_⟩, ?_, ?_⟩
    · simpa using hat.is_file
    · simpa using hr
    · intro stem' ext' rest' hat'
      obtain ⟨later, rfl, hla⟩ := hl stem' ext' rest' hat'
      simpa using hfirst later ext' rest' hla

theorem ScriptAt.four_le {stem ext rest : Bytes} {a b c d : UInt8}
    (hm : eqIgnoreAsciiCase [a, b, c, d] (str ".php") = true)
    (hat : ScriptAt fs documentRoot seen ([a, b, c, d] ++ text) stem ext rest)
    (hh : ¬((text = [] ∨ text.head? = some slash) ∧
      fs.isFile (join documentRoot (seen ++ [a, b, c, d])) = true)) : 4 ≤ stem.length := by
  obtain ⟨b, c, d, heq, hb, hc, hd⟩ := eqIgnoreAsciiCase_dotPhp_iff.mp hm
  cases heq
  obtain ⟨ha, hend, hext, hfile⟩ := hat
  obtain ⟨p, h, q, rfl, -⟩ := eqIgnoreAsciiCase_dotPhp_iff.mp hext
  have hl : ∀ b, toAsciiLower b = 112 ∨ toAsciiLower b = 104 → b ≠ dot := by
    rintro b hb rfl
    exact absurd hb (by decide)
  by_contra hlt
  match stem, hlt with
  | [], _ =>
    cases ha
    exact hh ⟨hend, hfile⟩
  | [_], _ =>
    cases ha
    exact hl dot (.inl hb) rfl
  | [_, _], _ =>
    cases ha
    exact hl dot (.inr hc) rfl
  | [_, _, _], _ =>
    cases ha
    exact hl dot (.inl hd) rfl
  | _ :: _ :: _ :: _ :: _, hlt => exact hlt (by simp)

theorem splitFrom_first (fs : FileSystem) (documentRoot seen text : Bytes) :
    FirstScript fs documentRoot seen text
      (TraditionalRouter.splitFrom fs documentRoot seen text) := by
  fun_induction TraditionalRouter.splitFrom fs documentRoot seen text with
  | case1 seen a b c d rest hm scriptPart hgo ih =>
    refine .skip [a, b, c, d] ih fun stem ext rest' hat => ?_
    refine hat.four_le (marker_iff.mp hm) fun hh => ?_
    rcases hh.1 with rfl | hs
    · simp at hgo
    · simp [hs] at hgo
  | case2 seen a b c d rest hm scriptPart hend candidate hfile =>
    refine ⟨[], [a, b, c, d], rest, ⟨rfl, ?_, marker_iff.mp hm, hfile⟩, rfl, ?_⟩
    · by_cases hnil : rest = []
      · exact .inl hnil
      · exact .inr (by simpa [hnil] using hend)
    · exact fun _ _ _ _ => Nat.zero_le _
  | case3 seen a b c d rest hm scriptPart hend candidate hfile ih =>
    refine .skip [a, b, c, d] ih fun stem ext rest' hat => ?_
    exact hat.four_le (marker_iff.mp hm) fun hh => hfile hh.2
  | case4 seen a b c d rest hm ih =>
    refine .skip [a] ih fun stem ext rest' hat => ?_
    -- at the byte itself there is no marker
    refine List.length_pos_iff.mpr fun hnil => hm (marker_iff.mpr ?_)
    obtain ⟨ha, -, hext, -⟩ := hat
    obtain ⟨p, h, q, rfl, -⟩ := eqIgnoreAsciiCase_dotPhp_iff.mp hext
    subst hnil
    cases ha
    exact hext
  | case5 seen text hsh =>
    rintro stem ext rest ⟨rfl, -, hext, -⟩
    obtain ⟨p, h, q, rfl, -⟩ := eqIgnoreAsciiCase_dotPhp_iff.mp hext
    match stem, hsh with
    | [], hsh => exact hsh _ _ _ _ _ rfl
    | [_], hsh => exact hsh _ _ _ _ _ rfl
    | [_, _], hsh => exact hsh _ _ _ _ _ rfl
    | [_, _, _], hsh => exact hsh _ _ _ _ _ rfl
    | _ :: _ :: _ :: _ :: _, hsh => exact hsh _ _ _ _ _ rfl

end Split

section Shortest

variable {fs : FileSystem} {documentRoot sanitized script rest : Bytes} {r : RouteResult}

theorem pathInfoSplit_iff : PathInfoSplit fs documentRoot sanitized script rest ↔
    ∃ stem ext, script = stem ++ ext ∧ ScriptAt fs documentRoot [] sanitized stem ext rest := by
  constructor
  · rintro ⟨ha, hend, hs, hfile⟩
    obtain ⟨stem, ext, rfl, hext⟩ := endsWithIgnoreAsciiCase_iff.mp hs
    exact ⟨stem, ext, rfl, ⟨by simpa using ha, hend, hext, hfile⟩⟩
  · rintro ⟨stem, ext, rfl, ⟨ha, hend, hext, hfile⟩⟩
    exact ⟨by simpa using ha, hend,
      endsWithIgnoreAsciiCase_iff.mpr ⟨stem, ext, rfl, hext⟩, hfile⟩

/-- The split with the shortest script. -/
structure ShortestSplit (fs : FileSystem) (documentRoot sanitized script rest : Bytes) : Prop
    extends PathInfoSplit fs documentRoot sanitized script rest where
  shortest : ∀ script' rest', PathInfoSplit fs documentRoot sanitized script' rest' →
    script.length ≤ script'.length

theorem trySplitPathInfo_eq_some
    (h : TraditionalRouter.trySplitPathInfo fs documentRoot sanitized = some r) :
    ∃ script rest, ShortestSplit fs documentRoot sanitized script rest ∧
      r = .execute (join documentRoot script) (if rest.isEmpty then none else some rest) none := by
  have hfirst := splitFrom_first fs documentRoot [] sanitized
  rw [show TraditionalRouter.splitFrom fs documentRoot [] sanitized = some r from h] at hfirst
  obtain ⟨stem, ext, rest, hat, hr, hfirst⟩ := hfirst
  refine ⟨stem ++ ext, rest, ⟨pathInfoSplit_iff.mpr ⟨stem, ext, rfl, hat⟩, ?_⟩, hr⟩
  intro script' rest' hsplit
  obtain ⟨stem', ext', rfl, hat'⟩ := pathInfoSplit_iff.mp hsplit
  have hle := hfirst stem' ext' rest' hat'
  obtain ⟨_, _, _, rfl, -⟩ := eqIgnoreAsciiCase_dotPhp_iff.mp hat.php
  obtain ⟨_, _, _, rfl, -⟩ := eqIgnoreAsciiCase_dotPhp_iff.mp hat'.php
  simpa using hle

theorem trySplitPathInfo_eq_none
    (h : TraditionalRouter.trySplitPathInfo fs documentRoot sanitized = none) :
    ¬PathInfoSplit fs documentRoot sanitized script rest := by
  have hfirst := splitFrom_first fs documentRoot [] sanitized
  rw [show TraditionalRouter.splitFrom fs documentRoot [] sanitized = none from h] at hfirst
  intro hsplit
  obtain ⟨stem, ext, -, hat⟩ := pathInfoSplit_iff.mp hsplit
  exact hfirst stem ext rest hat

theorem ShortestSplit.unique {script' rest' : Bytes}
    (h : ShortestSplit fs documentRoot sanitized script rest)
    (h' : ShortestSplit fs documentRoot sanitized script' rest') :
    script = script' ∧ rest = rest' :=
  List.append_inj (h.append.symm.trans h'.append) (le_antisymm
    (h.shortest script' rest' h'.toPathInfoSplit) (h'.shortest script rest h.toPathInfoSplit))

/-- **The PATH_INFO split is exact**: the walk answers with the shortest prefix
that names a script at a `/` or the end and is a file, the rest being PATH_INFO,
and with nothing exactly when there is none; the `.php` scan holds exactly when
some prefix names a script there. -/
theorem trySplitPathInfo_shortest (fs : FileSystem) (documentRoot sanitized : Bytes) :
    (∀ r, TraditionalRouter.trySplitPathInfo fs documentRoot sanitized = some r ↔
      ∃ script rest, ShortestSplit fs documentRoot sanitized script rest ∧
        r = .execute (join documentRoot script)
          (if rest.isEmpty then none else some rest) none) ∧
    (TraditionalRouter.trySplitPathInfo fs documentRoot sanitized = none ↔
      ∀ script rest, ¬PathInfoSplit fs documentRoot sanitized script rest) ∧
    (hasPhpComponent sanitized = true ↔ ∃ script rest, sanitized = script ++ rest ∧
      (rest = [] ∨ rest.head? = some slash) ∧ namesAScript script = true) := by
  refine ⟨fun r => ⟨trySplitPathInfo_eq_some, ?_⟩,
    ⟨fun h script rest => trySplitPathInfo_eq_none h, ?_⟩, ?_⟩
  · rintro ⟨script, rest, hsplit, rfl⟩
    cases hf : TraditionalRouter.trySplitPathInfo fs documentRoot sanitized with
    | none => exact absurd hsplit.toPathInfoSplit (trySplitPathInfo_eq_none hf)
    | some r =>
      obtain ⟨script', rest', hs', rfl⟩ := trySplitPathInfo_eq_some hf
      obtain ⟨rfl, rfl⟩ := hsplit.unique hs'
      rfl
  · intro h
    cases hf : TraditionalRouter.trySplitPathInfo fs documentRoot sanitized with
    | none => rfl
    | some r =>
      obtain ⟨script, rest, hsplit, -⟩ := trySplitPathInfo_eq_some hf
      exact absurd hsplit.toPathInfoSplit (h script rest)
  · rw [hasPhpComponent_iff_exists_append]
    constructor
    · rintro ⟨stem, ext, rest, rfl, hext, hend⟩
      have hends := endsWithIgnoreAsciiCase_iff.mpr ⟨stem, ext, rfl, hext⟩
      exact ⟨stem ++ ext, rest, by simp, hend, hends⟩
    · rintro ⟨script, rest, rfl, hend, hs⟩
      obtain ⟨stem, ext, rfl, hext⟩ := endsWithIgnoreAsciiCase_iff.mp hs
      exact ⟨stem, ext, rest, by simp, hext, hend⟩

end Shortest

end OxPhp.Routing
