import OxPhp.Server.Static.Serve

/-!
# Entity tags over the history of a file

An entity tag holds the size of the file and the second of its modification.  When
these tell the versions apart, a part that is served for a tag is a part of the
version the tag was made for.
-/

namespace OxPhp.Server.Static

open ByteStr Interleave

/-! ## Reading in pieces -/

/-- One more piece of a file that has been read so far. -/
theorem append_piece_prefix {bytes body : Bytes} (h : body <+: bytes) (n : Nat) :
    body ++ (bytes.drop body.length).take n <+: bytes := by
  obtain ⟨rest, rfl⟩ := h
  rw [List.drop_left, List.prefix_append_right_inj]
  exact List.take_prefix n rest

theorem drop_slice {bytes : Bytes} {start stop n k : Nat} (hk : n + k ≤ stop - start + 1) :
    ((slice bytes start stop).drop n).take k = (bytes.drop (start + n)).take k := by
  rw [slice, List.drop_take, List.drop_drop, List.take_take, Nat.min_eq_left (by omega)]

/-! ## What the requests know of the file -/

/-- The inode that a request has measured and goes on to read. -/
def Pc.reading : Pc → Option Nat
  | .tryAcquire inode _ _ | .readToEnd inode _ _ _ _ => some inode
  | _ => none

/-- The inode that a request for the file has measured and goes on to read. -/
def Op.reading (p : Bytes) : Op → Option Nat
  | .unborn => none
  | .running request pc => if request.path = p then pc.reading else none
  | .answered request answer => if request.path = p then answer.rest.map Reading.inode else none

section Invariant

variable (p : Bytes) (f : File)

/-- What a request has found out about the file is true of it. -/
def Pc.Knows : Pc → Prop
  | .metadata inode => inode < f.next
  | .tryAcquire inode size modified =>
    inode < f.next ∧ (f.content inode).bytes.length = size ∧ (f.content inode).modified = modified
  | .readToEnd inode size modified contents _ =>
    (inode < f.next ∧ (f.content inode).bytes.length = size ∧
      (f.content inode).modified = modified) ∧ contents <+: (f.content inode).bytes
  | .insert size modified contents _ =>
    contents.length = size → ∃ v ∈ f.versions, v.bytes = contents ∧ v.modified = modified
  | _ => True

/-- A partial answer sends this part of this version, and goes on reading it. -/
structure Sends (request : Request) (answer : Answer) (v : Version) (start stop : Nat) : Prop where
  version : v ∈ f.versions
  le : start ≤ stop
  lt : stop < v.bytes.length
  part : IsPart answer.response v.bytes start stop
  tag : ∀ tag, ifRangeTag request.headers = some tag → tag = v.etag
  rest : ∀ r, answer.rest = some r →
    r.inode < f.next ∧ (f.content r.inode).bytes = v.bytes ∧
      r.pos = start + answer.response.body.bytes.length ∧
      answer.response.body.bytes.length + r.remaining = stop - start + 1

/-- A request for the file knows it; a partial answer sends a part of one version. -/
def Op.Knows : Op → Prop
  | .unborn => True
  | .running request pc => request.path = p → pc.Knows f
  | .answered request answer => request.path = p →
    (∀ r, answer.rest = some r → r.inode < f.next) ∧
      (answer.response.status = 206 → ∃ v start stop, Sends f request answer v start stop)

/-- The versions of a file can be told apart by their tags. -/
def File.Distinct : Prop :=
  ∀ u ∈ f.versions, ∀ v ∈ f.versions, u.etag = v.etag → u.bytes = v.bytes

/-- The entry holds a version, with its tag. -/
def ContentEntry.IsOf (e : ContentEntry) : Prop :=
  ∃ v ∈ f.versions, e.bytes = v.bytes ∧ e.etag = v.etag

/-- The invariant: the versions can be told apart, and whoever knows something of
the file knows it of one version. -/
abbrev Versioned (s : System) : Prop := Tracks p File.Distinct ContentEntry.IsOf (Op.Knows p) s

end Invariant

/-! ## Responses -/

section Responses

variable {host : Host} {request : Request} {e : ContentEntry} {now : SystemTime} {f : File}
  {v : Version} {permit : Bool}

/-- A part from the cache is a part of the version that is cached. -/
theorem sends_entry (hv : v ∈ f.versions) (hb : e.bytes = v.bytes) (htag : e.etag = v.etag)
    (h : (host.respondEntry request e now).status = 206) :
    ∃ start stop, Sends f request ⟨host.respondEntry request e now, none, permit⟩ v start stop := by
  obtain ⟨-, start, stop, hp, hpa⟩ := respondBytes_206 h
  obtain ⟨hle, hlt, ht⟩ := planRange_part hp
  have hpa : IsPart (host.respondEntry request e now) e.bytes start stop := hpa
  rw [hb] at hlt hpa
  refine ⟨start, stop, hv, hle, hlt, hpa, fun tag h => (ht tag h).trans htag, ?_⟩
  intro r hr
  cases hr

/-- A streamed part is a part of what was measured. -/
theorem sends_streamed {inode size : Nat} {modified : SystemTime}
    (hk : (Pc.tryAcquire inode size modified).Knows f)
    (h : (host.respondStreamed request inode size modified now).1.status = 206) :
    ∃ v start stop, Sends f request ⟨(host.respondStreamed request inode size modified now).1,
        (host.respondStreamed request inode size modified now).2, permit⟩ v start stop := by
  obtain ⟨hlt, rfl, rfl⟩ := hk
  unfold Host.respondStreamed at h ⊢
  dsimp only at h ⊢
  split at h
  · cases h
  · simp at h
  · next start stop hp =>
    obtain ⟨hle, hs, ht⟩ := planRange_part hp
    refine ⟨f.content inode, start, stop, f.recorded inode hlt, hle, hs, ?_, ht, ?_⟩
    · exact ⟨rfl, rfl, by simp⟩
    · rintro r ⟨⟩
      exact ⟨hlt, rfl, by simp, by simp⟩

/-- A streamed body reads the file that was opened. -/
theorem inode_respondStreamed {inode size : Nat} {modified : SystemTime} {r : Reading}
    (h : (host.respondStreamed request inode size modified now).2 = some r) : r.inode = inode := by
  unfold Host.respondStreamed at h
  dsimp only at h
  split at h
  · cases h
  · cases h
    rfl
  · cases h
    rfl

end Responses

/-! ## Writes -/

section Writes

variable {p : Bytes} {f f' : File} {op : Op} {n : Nat}

theorem Op.Knows.reading_lt (h : op.Knows p f) (hn : op.reading p = some n) : n < f.next := by
  cases op with
  | unborn => cases hn
  | running request pc =>
    obtain ⟨hp, hn⟩ := Option.ite_none_right_eq_some.mp hn
    have hk := h hp
    cases pc with
    | tryAcquire inode size modified =>
      cases hn
      exact hk.1
    | readToEnd inode size modified contents permit =>
      cases hn
      exact hk.1.1
    | _ => cases hn
  | answered request answer =>
    obtain ⟨hp, hn⟩ := Option.ite_none_right_eq_some.mp hn
    obtain ⟨r, hr, rfl⟩ := Option.map_eq_some_iff.mp hn
    exact (h hp).1 r hr

/-- What a request knows survives changes to other inodes. -/
theorem Op.Knows.grow (h : op.Knows p f) (hn : f.next ≤ f'.next)
    (hve : ∀ v ∈ f.versions, v ∈ f'.versions)
    (hke : ∀ n, op.reading p = some n → f'.content n = f.content n) : op.Knows p f' := by
  cases op with
  | unborn => trivial
  | running request pc =>
    intro hpa
    have hk := h hpa
    have hke : ∀ n, pc.reading = some n → f'.content n = f.content n := by
      simpa [Op.reading, hpa] using hke
    cases pc with
    | metadata inode => exact Nat.lt_of_lt_of_le hk hn
    | tryAcquire inode size modified =>
      obtain ⟨hlt, hm⟩ := hk
      simp only [Pc.Knows, hke inode rfl]
      exact ⟨Nat.lt_of_lt_of_le hlt hn, hm⟩
    | readToEnd inode size modified contents permit =>
      obtain ⟨⟨hlt, hm⟩, hc⟩ := hk
      simp only [Pc.Knows, hke inode rfl]
      exact ⟨⟨Nat.lt_of_lt_of_le hlt hn, hm⟩, hc⟩
    | insert size modified contents permit =>
      intro hsize
      obtain ⟨v, hv, hma⟩ := hk hsize
      exact ⟨v, hve v hv, hma⟩
    | lookup | claim | stat _ | confirm | evict _ | openStatic => trivial
  | answered request answer =>
    intro hpa
    obtain ⟨hrest, hs⟩ := h hpa
    refine ⟨fun r hr => Nat.lt_of_lt_of_le (hrest r hr) hn, fun h206 => ?_⟩
    obtain ⟨v, start, stop, hv, hle, hlt, hpart, htag, hre⟩ := hs h206
    refine ⟨v, start, stop, hve v hv, hle, hlt, hpart, htag, fun r hr => ?_⟩
    obtain ⟨hin, hb, hp⟩ := hre r hr
    have hsa : f'.content r.inode = f.content r.inode :=
      hke r.inode (by simp [Op.reading, hpa, hr])
    exact ⟨Nat.lt_of_lt_of_le hin hn, by rw [hsa, hb], hp⟩

theorem Op.Knows.replace (h : op.Knows p f) (v : Version) : op.Knows p (f.replace v) := by
  refine h.grow (Nat.le_succ _) (fun u hu => List.mem_cons_of_mem v hu) fun n hn => ?_
  exact Function.update_of_ne (Nat.ne_of_lt (h.reading_lt hn)) _ _

/-- A write in place is harmless unless the request is reading the inode. -/
theorem Op.Knows.overwrite (h : op.Knows p f) (v : Version)
    (hf : f.inode.isSome = true → op.reading p ≠ f.inode) : op.Knows p (f.overwrite v) := by
  unfold File.overwrite
  split
  · exact h.replace v
  · next m hm =>
    refine h.grow (Nat.le_refl _) (fun u hu => List.mem_cons_of_mem v hu) fun n hn => ?_
    refine Function.update_of_ne (fun heq => ?_) _ _
    rw [hm] at hf
    exact hf rfl (heq ▸ hn)

/-- A version of another size or second has another tag. -/
theorem distinct_cons {v : Version} (h : f.Distinct) (hv : f'.versions = v :: f.versions)
    (hnew : ∀ u ∈ f.versions, u.bytes.length = v.bytes.length →
      secsSinceEpoch u.modified ≠ secsSinceEpoch v.modified) : f'.Distinct := by
  have hne : ∀ u ∈ f.versions, u.etag ≠ v.etag := by
    intro u hu htag
    obtain ⟨hlength, hs⟩ := generateEtag_eq_iff.mp htag
    exact hnew u hu hlength hs
  intro u hu w hw htag
  rw [hv] at hu hw
  rcases List.mem_cons.mp hu with rfl | hold <;> rcases List.mem_cons.mp hw with rfl | hold'
  · rfl
  · exact absurd htag.symm (hne w hold')
  · exact absurd htag (hne u hold)
  · exact h u hold w hold' htag

theorem versions_write (f : File) (v : Version) (inPlace : Bool) :
    (if inPlace then f.overwrite v else f.replace v).versions = v :: f.versions := by
  split
  · unfold File.overwrite
    split <;> rfl
  · rfl

end Writes

/-! ## Steps -/

section Steps

variable {host : Host} {p : Bytes} {s s' : System} {f : File} {e : ContentEntry}
  {request : Request} {permit : Bool} {response : Response} {answer : Answer}

theorem Pc.knows_of_searching {pc : Pc} (h : pc.searching = true) : pc.Knows f := by
  cases pc with
  | lookup | claim | stat _ | confirm | evict _ | openStatic => trivial
  | metadata _ | tryAcquire _ _ _ | readToEnd _ _ _ _ _ | insert _ _ _ _ => cases h

theorem ContentEntry.IsOf.like {e₀ : ContentEntry} (h : e₀.IsOf f) (hl : e.Like e₀) : e.IsOf f := by
  obtain ⟨v, hv, hb, htag⟩ := h
  exact ⟨v, hv, hl.bytes.trans hb, hl.etag.trans htag⟩

theorem isOf_contentEntry {contents : Bytes} {modified : SystemTime} {now : Nat}
    (h : (Pc.insert contents.length modified contents permit).Knows f) :
    (host.contentEntry request contents modified now).IsOf f := by
  obtain ⟨v, hv, rfl, rfl⟩ := h rfl
  exact ⟨v, hv, rfl, rfl⟩

theorem knows_of_ne (h : response.status ≠ 206) :
    (Op.answered request ⟨host.finish request response, none, permit⟩).Knows p f := by
  refine fun _ => ⟨fun r hr => (by cases hr), fun h206 => ?_⟩
  rw [status_finish] at h206
  exact absurd h206 h

theorem knows_of_entry {now : SystemTime}
    (hen : response.status = 206 → response = host.respondEntry request e now)
    (he : request.path = p → e.IsOf f) :
    (Op.answered request ⟨host.finish request response, none, permit⟩).Knows p f := by
  refine fun hp => ⟨fun r hr => (by cases hr), fun h206 => ?_⟩
  rw [status_finish] at h206
  rw [finish_of_206 h206, hen h206]
  obtain ⟨v, hv, hb, htag⟩ := he hp
  exact ⟨v, sends_entry hv hb htag (hen h206 ▸ h206)⟩

/-- Every step of `serve` knows one version. -/
theorem Versioned.knows_acts {t : Tick} {pc : Pc} {next : Next Pc Answer} {shared : Shared}
    (h : Versioned p s) (hacts : Acts host request t s.shared pc next shared)
    (hpc : request.path = p → pc.Knows (s.shared.disk p)) :
    (Op.after request next).Knows p (s.shared.disk p) := by
  cases hacts with
  | searches here there hw => exact fun _ => Pc.knows_of_searching there
  | hits here hw mem key =>
    exact knows_of_entry (fun hs => respondCached_range (.inl hs)) fun hp =>
      h.entries _ mem (key.trans hp)
  | missing | refused => exact knows_of_ne (by decide)
  | opens named =>
    intro hp
    rw [hp] at named
    exact (s.shared.disk p).named _ named
  | notModified responds =>
    obtain ⟨-, hre⟩ := Option.ite_none_right_eq_some.mp responds
    cases hre
    exact knows_of_ne (by simp [build304])
  | measures reads =>
    intro hp
    rw [hp] at reads
    exact ⟨hpc hp, by rw [reads], by rw [reads]⟩
  | acquires wants free | buffers small =>
    exact fun hp => ⟨hpc hp, List.nil_prefix⟩
  | streams large busy =>
    intro hp
    have hk := hpc hp
    refine ⟨fun r hr => ?_, fun h206 => ?_⟩
    · rw [inode_respondStreamed hr]
      exact hk.1
    · rw [status_finish] at h206
      rw [finish_of_206 h206]
      exact sends_streamed hk h206
  | reads file =>
    intro hp
    obtain ⟨hm, hc⟩ := hpc hp
    refine ⟨hm, ?_⟩
    rw [hp] at file
    rw [file] at hc ⊢
    exact append_piece_prefix hc _
  | hasRead =>
    intro hp hsize
    obtain ⟨⟨hlt, hlength, hmo⟩, hc⟩ := hpc hp
    refine ⟨_, (s.shared.disk p).recorded _ hlt, ?_, hmo⟩
    exact (hc.eq_of_length (hsize.trans hlength.symm)).symm
  | truncated => exact knows_of_ne (by simp [Host.respondTruncated])
  | inserts entry =>
    subst entry
    exact knows_of_entry (fun _ => rfl) fun hp => isOf_contentEntry (hpc hp)

/-- A streamed body goes on with the same version. -/
theorem Op.Knows.readOn {r : Reading} {chunk : Nat} (h : (Op.answered request answer).Knows p f)
    (hr : answer.rest = some r) :
    (Op.answered request (Host.readOn f answer r chunk)).Knows p f := by
  intro hp
  obtain ⟨hre, hs⟩ := h hp
  unfold Host.readOn
  dsimp only
  split
  · refine ⟨fun r' hr' => (by cases hr'), fun h206 => ?_⟩
    obtain ⟨v, start, stop, hv, hle, hlt, hpa, htag, -⟩ := hs h206
    exact ⟨v, start, stop, hv, hle, hlt, hpa, htag, fun r' hr' => by cases hr'⟩
  · refine ⟨?_, fun h206 => ?_⟩
    · rintro r' ⟨⟩
      exact hre r hr
    obtain ⟨v, start, stop, hv, hle, hlt, hpa, htag, hrea⟩ := hs h206
    obtain ⟨hin, hb, hpos, hrem⟩ := hrea r hr
    have hpi := append_piece_prefix hpa.yielded (min chunk r.remaining)
    rw [drop_slice (by omega), ← hpos, ← hb] at hpi
    refine ⟨v, start, stop, hv, hle, hlt, ⟨hpa.range, hpa.length, hb ▸ hpi⟩, htag, ?_⟩
    rintro r' ⟨⟩
    refine ⟨hin, hb, ?_, ?_⟩
    · simp only [Body.bytes_stream, List.length_append]
      omega
    · simp only [Body.bytes_stream, List.length_append, List.length_take]
      omega

theorem Op.Knows.drop (h : (Op.answered request answer).Knows p f) :
    (Op.answered request { answer with rest := none, permit := false }).Knows p f := by
  intro hp
  refine ⟨fun r hr => (by cases hr), fun h206 => ?_⟩
  obtain ⟨v, start, stop, hv, hle, hlt, hpa, htag, -⟩ := (h hp).2 h206
  exact ⟨v, start, stop, hv, hle, hlt, hpa, htag, fun r hr => by cases hr⟩

/-- The condition on a move: a write makes a version whose size or whole second no
earlier one of the file has, and an inode is not written over while a request that
has measured it is still to read it. -/
def Distinguished (p : Bytes) : Move → System → Prop
  | .write path v inPlace, s => path = p →
    (∀ u ∈ (s.shared.disk p).versions, u.bytes.length = v.bytes.length →
      secsSinceEpoch u.modified ≠ secsSinceEpoch v.modified) ∧
    (inPlace = true → (s.shared.disk p).inode.isSome = true →
      ∀ i, (s.ops i).reading p ≠ (s.shared.disk p).inode)
  | _, _ => True

theorem versioned_rules (host : Host) (p : Bytes) :
    Rules host p ContentEntry.IsOf (Op.Knows p) where
  like := ContentEntry.IsOf.like
  inserts := fun hp h => isOf_contentEntry (h hp)
  begins := fun _ => trivial
  fails := knows_of_ne (by decide)
  reads := fun hf hr h hp => hf hp ▸ h.readOn hr hp
  drops := Op.Knows.drop

/-- A distinguished write keeps the versions apart, and leaves what is being read. -/
theorem Versioned.written {m : Move} (h : Versioned p s) (hok : Distinguished p m s)
    (hw : m.writes s = some (p, f)) : f.Distinct ∧
      (∀ e : ContentEntry, e.IsOf (s.shared.disk p) → e.IsOf f) ∧ ∀ i, (s.ops i).Knows p f := by
  cases m with
  | write path v inPlace =>
    cases hw
    have hv := versions_write (s.shared.disk p) v inPlace
    obtain ⟨hnew, hfree⟩ := hok rfl
    refine ⟨distinct_cons h.file hv hnew, ?_, fun i => ?_⟩
    · rintro e ⟨u, hu, he⟩
      exact ⟨u, hv ▸ List.mem_cons_of_mem v hu, he⟩
    · split
      · next hp => exact (h.ops i).overwrite v fun hso => hfree hp hso i
      · exact (h.ops i).replace v
  | unlink path =>
    cases hw
    refine ⟨h.file, fun _ he => he, fun i => ?_⟩
    exact (h.ops i).grow (Nat.le_refl _) (fun u hu => hu) fun n hn => rfl
  | _ => cases hw

/-- **Every distinguished move keeps the versions apart.** -/
theorem Versioned.step {m : Move} (h : Versioned p s) (hok : Distinguished p m s)
    (hst : host.step m s = some s') : Versioned p s' := by
  refine Tracks.step h (versioned_rules host p) ?_ (fun f hw => h.written hok hw) hst
  intro i t request pc next shared _ hop hacts
  have hpc : (Op.running request pc).Knows p (s.shared.disk p) := hop ▸ h.ops i
  exact h.knows_acts hacts hpc

end Steps

/-- **Entity tags.**  In every run in which each write to a file makes a version whose size or
whole second of modification no earlier version has, and no inode is written over while a request
is between measuring and reading it: versions of the file with equal tags have equal bytes, and a
206 that honours an entity tag in `If-Range` sends a part of every version the tag was made for. -/
theorem tagged_part_of_version (host : Host) (p : Bytes) (moves : List Move) (s : System)
    (hok : Runs.Along host.step (Distinguished p) moves (start fun _ => .missing))
    (hrun : Runs.run host.step moves (start fun _ => .missing) = some s) :
    (∀ u ∈ (s.shared.disk p).versions, ∀ v ∈ (s.shared.disk p).versions,
      u.etag = v.etag → u.bytes = v.bytes) ∧
    ∀ i request answer tag v, s.ops i = .answered request answer → request.path = p →
      answer.response.status = 206 → ifRangeTag request.headers = some tag →
      v ∈ (s.shared.disk p).versions → v.etag = tag →
        ∃ start stop, start ≤ stop ∧ stop < v.bytes.length ∧
          IsPart answer.response v.bytes start stop := by
  have hs : Versioned p (start fun _ => .missing) :=
    ⟨fun u hu => absurd hu List.not_mem_nil, fun e he => absurd he List.not_mem_nil,
      fun _ => trivial⟩
  have hve : Versioned p s :=
    Runs.run_invariant_along (fun m s s' h hok hst => h.step hok hst) hs hok hrun
  refine ⟨hve.file, ?_⟩
  intro i request answer tag v hi hp h206 htag hv ht
  have hk : (Op.answered request answer).Knows p (s.shared.disk p) := hi ▸ hve.ops i
  obtain ⟨w, start, stop, hw, hle, hlt, hpa, hta, -⟩ := (hk hp).2 h206
  have hb : w.bytes = v.bytes :=
    hve.file w hw v hv (((hta tag htag).symm).trans ht.symm)
  rw [hb] at hlt hpa
  exact ⟨start, stop, hle, hlt, hpa⟩

/-! ## A note that is written twice -/

/-- A host that compresses nothing. -/
def plain : Host where
  dates := { parse := fun _ => none, format := fun _ => [] }
  mimeGuess := fun _ => str "text/plain"
  compress := fun _ _ _ => none
  levels := { brotli := 0, gzip := 0, zstd := 0 }
  cacheControl := some (str "public")
  revalidateTtl := some 3000000000

def notePath : Bytes := str "/note.txt"

/-- The whole note, or the rest of it after the first byte when the tag matches. -/
def note (tag : Option Bytes) : Request where
  path := notePath
  method := .get
  headers :=
    { range := if tag.isSome then [str "bytes=1-"] else []
      ifRange := tag
      ifNoneMatch := none
      ifModifiedSince := none
      acceptEncoding := [] }

def firstNote : Version where
  bytes := str "ab"
  modified := 1700000000000000001

def secondNote (modified : SystemTime) : Version where
  bytes := str "cd"
  modified := modified

def nextSecond : Version := secondNote 1700000001000000001

def sameSecond : Version := secondNote 1700000000000000002

/-- A step at a time. -/
def tickAt (now : Nat) : Tick where
  now := now
  time := 0
  allowed := true
  chunk := 2
  scheduled := false

/-- The note is written twice, and the rest of the second version is asked for. -/
def restOfSecond : List Move :=
  [.write notePath firstNote false, .write notePath nextSecond false] ++
    served 0 (note (some nextSecond.etag)) (tickAt 0) 7

def restAnswered (s : System) : Bool :=
  (match s.ops 0 with
    | .answered request answer =>
      request = note (some nextSecond.etag) && answer.response.status = 206
    | _ => false) && (s.shared.disk notePath).versions = [nextSecond, firstNote]

theorem tagged_part_of_version_restOfSecond :
    ∃ s answer, Runs.run plain.step restOfSecond (start fun _ => .missing) = some s ∧
      s.ops 0 = .answered (note (some nextSecond.etag)) answer ∧ answer.response.status = 206 ∧
      ∃ start stop, start ≤ stop ∧ stop < nextSecond.bytes.length ∧
        IsPart answer.response nextSecond.bytes start stop := by
  have hany : (Runs.run plain.step restOfSecond (start fun _ => .missing)).any restAnswered =
      true := by
    decide +kernel
  obtain ⟨s, hrun, hs⟩ := (Option.any_eq_true _ _).mp hany
  obtain ⟨ha, hv⟩ := Bool.and_eq_true_iff.mp hs
  split at ha
  · next request answer hop =>
    simp only [Bool.and_eq_true, decide_eq_true_eq] at ha hv
    obtain ⟨rfl, h206⟩ := ha
    refine ⟨s, answer, hrun, hop, h206, ?_⟩
    have hok : Runs.Along plain.step (Distinguished notePath) restOfSecond
        (start fun _ => .missing) := by
      refine ⟨fun _ => ⟨fun u hu => absurd hu List.not_mem_nil, (by intros; contradiction)⟩,
        fun s₁ hs₁ => ?_⟩
      cases hs₁
      refine ⟨fun _ => ⟨fun u hu _ => ?_, (by intros; contradiction)⟩,
        fun s₂ hs₂ => Runs.along_of_forall ?_⟩
      · obtain rfl : u = firstNote := by
          simpa [System.setFile, File.replace, start, File.missing] using hu
        decide
      · intro m hm s
        rcases mem_served hm with rfl | rfl <;> trivial
    exact (tagged_part_of_version plain notePath restOfSecond s hok hrun).2 0 _ answer
      nextSecond.etag nextSecond hop rfl h206 (by decide +kernel) (by simp [hv]) rfl
  · cases ha

/-- The note is fetched and cached, written again within the second, and asked for
with the tag of the first version once the cache looks at the disk again. -/
def restOfFirst : List Move :=
  .write notePath firstNote false :: served 0 (note none) (tickAt 0) 7 ++
    .write notePath sameSecond false :: served 1 (note (some firstNote.etag)) (tickAt 3000000000) 10

def bothNotesAnswered (s : System) : Bool :=
  match s.ops 0, s.ops 1 with
  | .answered request answer, .answered request' answer' =>
    request = note none && answer.response.etag = some firstNote.etag &&
      answer.response.body = .full firstNote.bytes &&
      request' = note (some firstNote.etag) && answer'.response.status = 206 &&
      answer'.response.body = .full (str "d")
  | _, _ => false

/-- The two writes change the modification time, and the tag that was issued for
the first version is honoured with a part of the second. -/
theorem restOfFirst_part_of_second :
    firstNote.modified ≠ sameSecond.modified ∧ firstNote.bytes ≠ sameSecond.bytes ∧
    firstNote.etag = sameSecond.etag ∧
      ∃ s answer answer', Runs.run plain.step restOfFirst (start fun _ => .missing) = some s ∧
        s.ops 0 = .answered (note none) answer ∧
        answer.response.etag = some firstNote.etag ∧ answer.response.body = .full firstNote.bytes ∧
        s.ops 1 = .answered (note (some firstNote.etag)) answer' ∧ answer'.response.status = 206 ∧
        ifRangeTag (note (some firstNote.etag)).headers = some firstNote.etag ∧
        ∀ start stop, ¬IsPart answer'.response firstNote.bytes start stop := by
  have hany : (Runs.run plain.step restOfFirst (start fun _ => .missing)).any bothNotesAnswered =
      true := by
    decide +kernel
  obtain ⟨s, hrun, hs⟩ := (Option.any_eq_true _ _).mp hany
  refine ⟨by decide, by decide, by decide +kernel, s, ?_⟩
  unfold bothNotesAnswered at hs
  split at hs
  · next request answer request' answer' hi hj =>
    simp only [Bool.and_eq_true, decide_eq_true_eq] at hs
    obtain ⟨⟨⟨⟨⟨rfl, htag⟩, hb⟩, rfl⟩, h206⟩, hr⟩ := hs
    refine ⟨answer, answer', hrun, hi, htag, hb, hj, h206, by decide +kernel, ?_⟩
    intro start stop hp
    have hin := hp.yielded
    rw [hr] at hin
    have hmem : (100 : UInt8) ∈ slice firstNote.bytes start stop :=
      hin.subset (by decide)
    have hmem' : (100 : UInt8) ∈ firstNote.bytes := List.mem_of_mem_drop (List.mem_of_mem_take hmem)
    exact absurd hmem' (by decide)
  · cases hs

end OxPhp.Server.Static
