import OxPhp.Lib.Keyed
import OxPhp.Server.Static.Validators

/-!
# The content cache

`FileCache` in `server/response/static_file.rs`.  Each function here is what the
code does under one hold of the content lock.  Instants are nanoseconds of a
monotonic clock.
-/

namespace OxPhp.Server.Static

open ByteStr

def maxCacheFileSize : Nat := 1048576

def maxCacheTotalBytes : Nat := 67108864

structure ContentHeaders where
  contentType : Bytes
  contentLength : Nat
  etag : Bytes
  weakEtag : Bytes
  lastModified : Bytes
  deriving DecidableEq

def ContentHeaders.new (mimeType : Bytes) (size : Nat) (etag lastModified : Bytes) :
    ContentHeaders where
  contentType := mimeType
  contentLength := size
  etag := etag
  weakEtag := str "W/" ++ etag
  lastModified := lastModified

inductive ArtifactState where
  | absent
  | ready (bytes : Bytes)
  | rejected
  deriving DecidableEq

structure ContentEntry where
  key : Bytes
  bytes : Bytes
  mimeType : Bytes
  modified : SystemTime
  etag : Bytes
  headers : ContentHeaders
  lastChecked : Nat
  artifacts : Coding → ArtifactState

namespace ContentEntry

variable (e : ContentEntry)

def footprint : Nat :=
  e.bytes.length + (Coding.all.map fun coding =>
    match e.artifacts coding with
    | .ready bytes => bytes.length
    | .absent | .rejected => 0).sum

def setArtifact (coding : Coding) (state : ArtifactState) : ContentEntry :=
  { e with artifacts := Function.update e.artifacts coding state }

/-- The window in which the entry is served without a look at the disk is over. -/
def stale (revalidateTtl : Option Nat) (now : Nat) : Bool :=
  revalidateTtl.any fun ttl => ttl ≤ now - e.lastChecked

/-- The entry can take an artifact built from the bytes of this modification. -/
def lacksArtifact (coding : Coding) (modified : SystemTime) : Bool :=
  e.modified = modified && e.artifacts coding = .absent

end ContentEntry

/-- The entries, most recent first. -/
structure ContentCache where
  entries : List ContentEntry
  totalBytes : Nat

/-- `pop_lru` while there are entries and the budget has no room, the least
recent entry first. -/
def popWhileFull (needed : Nat) : List ContentEntry → Nat → List ContentEntry × Nat
  | [], total => ([], total)
  | e :: rest, total =>
    if maxCacheTotalBytes < total + needed then popWhileFull needed rest (total - e.footprint)
    else (e :: rest, total)

namespace ContentCache

def empty : ContentCache where
  entries := []
  totalBytes := 0

variable (c : ContentCache)

def peek (key : Bytes) : Option ContentEntry := Keyed.find ContentEntry.key c.entries key

def pop (key : Bytes) : ContentCache :=
  match c.peek key with
  | none => c
  | some e =>
    { entries := Keyed.erase ContentEntry.key c.entries key
      totalBytes := c.totalBytes - e.footprint }

def promote (key : Bytes) (f : ContentEntry → ContentEntry) : ContentCache :=
  match c.peek key with
  | none => c
  | some e => { c with entries := f e :: Keyed.erase ContentEntry.key c.entries key }

def makeRoom (needed : Nat) : ContentCache :=
  let left := popWhileFull needed c.entries.reverse c.totalBytes
  { entries := left.1.reverse, totalBytes := left.2 }

def insert (e : ContentEntry) : ContentCache :=
  if maxCacheFileSize < e.bytes.length then c
  else
    let room := (c.makeRoom e.bytes.length).pop e.key
    { entries := e :: room.entries, totalBytes := room.totalBytes + e.bytes.length }

/-- The entry is the most recent one by the time room is made, so it goes last,
and with it the place for the artifact. -/
def insertArtifact (key : Bytes) (coding : Coding) (modified : SystemTime) (artifact : Bytes) :
    ContentCache :=
  let promoted := c.promote key id
  if (c.peek key).any fun e => e.lacksArtifact coding modified then
    let room := promoted.makeRoom artifact.length
    match room.peek key with
    | none => room
    | some _ =>
      { room.promote key fun e => e.setArtifact coding (.ready artifact) with
        totalBytes := room.totalBytes + artifact.length }
  else promoted

def rejectArtifact (key : Bytes) (coding : Coding) (modified : SystemTime) : ContentCache :=
  c.promote key fun e =>
    if e.lacksArtifact coding modified then e.setArtifact coding .rejected else e

end ContentCache

/-! ## What an entry holds -/

/-- Two entries that describe the same bytes of the same file. -/
structure ContentEntry.Like (e e₀ : ContentEntry) : Prop where
  key : e.key = e₀.key
  bytes : e.bytes = e₀.bytes
  mimeType : e.mimeType = e₀.mimeType
  modified : e.modified = e₀.modified
  etag : e.etag = e₀.etag
  headers : e.headers = e₀.headers

namespace ContentEntry.Like

theorem refl (e : ContentEntry) : e.Like e := ⟨rfl, rfl, rfl, rfl, rfl, rfl⟩

theorem trans {e₁ e₂ e₃ : ContentEntry} (h : e₁.Like e₂) (h' : e₂.Like e₃) : e₁.Like e₃ :=
  ⟨h.key.trans h'.key, h.bytes.trans h'.bytes, h.mimeType.trans h'.mimeType,
    h.modified.trans h'.modified, h.etag.trans h'.etag, h.headers.trans h'.headers⟩

theorem setArtifact (e : ContentEntry) (coding : Coding) (state : ArtifactState) :
    (e.setArtifact coding state).Like e :=
  ⟨rfl, rfl, rfl, rfl, rfl, rfl⟩

end ContentEntry.Like

/-- Nothing in the cache describes anything new. -/
def ContentCache.Within (c c₀ : ContentCache) : Prop :=
  ∀ e ∈ c.entries, ∃ e₀ ∈ c₀.entries, e.Like e₀

theorem popWhileFull_suffix (needed : Nat) (entries : List ContentEntry) (total : Nat) :
    (popWhileFull needed entries total).1 <:+ entries := by
  induction entries generalizing total with
  | nil => exact List.suffix_rfl
  | cons e rest ih =>
    simp only [popWhileFull]
    split
    · exact (ih _).trans (List.suffix_cons e rest)
    · exact List.suffix_rfl

namespace ContentCache

variable {c c₀ : ContentCache} {key : Bytes} {e : ContentEntry}

theorem Within.of_subset (h : ∀ e ∈ c.entries, e ∈ c₀.entries) : c.Within c₀ :=
  fun e he => ⟨e, h e he, .refl e⟩

theorem Within.refl (c : ContentCache) : c.Within c := .of_subset fun _ he => he

theorem Within.trans {c₁ : ContentCache} (h : c.Within c₁) (h' : c₁.Within c₀) : c.Within c₀ := by
  intro e he
  obtain ⟨e₁, he₁, hl⟩ := h e he
  obtain ⟨e₀, he₀, hl'⟩ := h' e₁ he₁
  exact ⟨e₀, he₀, hl.trans hl'⟩

theorem mem_of_peek (h : c.peek key = some e) : e ∈ c.entries ∧ e.key = key := by
  unfold peek Keyed.find at h
  exact ⟨List.mem_of_find?_eq_some h, by simpa using List.find?_some h⟩

theorem within_promote (c : ContentCache) (key : Bytes) {f : ContentEntry → ContentEntry}
    (hf : ∀ e, (f e).Like e) : (c.promote key f).Within c := by
  unfold promote
  split
  · exact .refl c
  · next e hp =>
    intro e' he'
    rcases List.mem_cons.mp he' with rfl | he'
    · exact ⟨e, (mem_of_peek hp).1, hf e⟩
    · exact ⟨e', List.mem_of_mem_filter he', .refl e'⟩

theorem makeRoom_sublist (c : ContentCache) (needed : Nat) :
    (c.makeRoom needed).entries.Sublist c.entries := by
  have hs := (popWhileFull_suffix needed c.entries.reverse c.totalBytes).sublist.reverse
  rwa [List.reverse_reverse] at hs

theorem mem_of_pop (he : e ∈ (c.pop key).entries) : e ∈ c.entries := by
  unfold pop at he
  split at he
  · exact he
  · exact List.mem_of_mem_filter he

theorem within_pop (c : ContentCache) (key : Bytes) : (c.pop key).Within c :=
  .of_subset fun _ => mem_of_pop

theorem of_mem_insert {new : ContentEntry} (h : e ∈ (c.insert new).entries) :
    e ∈ c.entries ∨ e = new ∧ new.bytes.length ≤ maxCacheFileSize := by
  unfold insert at h
  split at h
  · exact .inl h
  · next hsize =>
    rcases List.mem_cons.mp h with rfl | hold
    · exact .inr ⟨rfl, by omega⟩
    · exact .inl ((c.makeRoom_sublist _).subset (mem_of_pop hold))

theorem within_insertArtifact (c : ContentCache) (key : Bytes) (coding : Coding)
    (modified : SystemTime) (artifact : Bytes) :
    (c.insertArtifact key coding modified artifact).Within c := by
  have hp := c.within_promote key (f := id) .refl
  unfold insertArtifact
  dsimp only
  split
  · have hr : ((c.promote key id).makeRoom artifact.length).Within c :=
      Within.trans (.of_subset fun _ he => ((c.promote key id).makeRoom_sublist _).subset he) hp
    split
    · exact hr
    · have hset := ((c.promote key id).makeRoom artifact.length).within_promote key
        fun e => ContentEntry.Like.setArtifact e coding (.ready artifact)
      exact Within.trans hset hr
  · exact hp

theorem within_rejectArtifact (c : ContentCache) (key : Bytes) (coding : Coding)
    (modified : SystemTime) : (c.rejectArtifact key coding modified).Within c := by
  refine c.within_promote key fun e => ?_
  split
  · exact .setArtifact e coding .rejected
  · exact .refl e

end ContentCache

end OxPhp.Server.Static
