import OxPhp.Config.DenyFile

/-!
# Screening and sanitizing a request path

The text functions of `server/routing/mod.rs`.  The scans of the source run over
byte indices; here each runs over the rest of the text.
-/

namespace OxPhp.Routing

open ByteStr

inductive UriKind where
  | noExtension
  | php
  | otherExtension
  deriving DecidableEq

def wellKnown : Bytes := str ".well-known"

def startsWithWellKnown (sanitized : Bytes) : Bool := (wellKnown ++ [slash]).isPrefixOf sanitized

/-- Whether the text at a `.` is `.php` followed by `/` or the end; letters are
compared with bit `0x20` set. -/
def isPhpMarker (p h q : UInt8) (after : Bytes) : Bool :=
  (p ||| 0x20) == 112 && (h ||| 0x20) == 104 && (q ||| 0x20) == 112 &&
    (after.isEmpty || after.head? == some slash)

/-- Whether a path has a component that ends in `.php`. The scan stops at a `.`
with fewer than three bytes after it. -/
def hasPhpComponent : Bytes → Bool
  | [] => false
  | b :: rest =>
    if b = dot then
      match rest with
      | p :: h :: q :: after =>
        if isPhpMarker p h q after then true else hasPhpComponent (p :: h :: q :: after)
      | _ => false
    else hasPhpComponent rest

def extensionKind (filename : Bytes) : UriKind :=
  if filename.isEmpty then .noExtension
  else
    match rsplitOnce dot filename with
    | none => .noExtension
    | some ([], _) => .noExtension
    | some (_ :: _, ext) =>
      if !ext.isEmpty && ext.all isAsciiAlphanumeric then .otherExtension else .noExtension

def classifyUriWithPhp (sanitized : Bytes) (hasPhp : Bool) : UriKind :=
  if hasPhp then .php
  else
    match rsplitOnce slash sanitized with
    | some (_, filename) => extensionKind filename
    | none => extensionKind sanitized

/-- Whether the byte scan finds `%` or `/.`. -/
def hasMarkerByte : Bytes → Bool
  | [] => false
  | b :: rest =>
    if b = percent then true
    else if b = slash && rest.head? == some dot then true
    else hasMarkerByte rest

/-- Whether a path can hide a dot segment: a leading `.`, a `/.` or an escape. -/
def hasDotSegmentMarkers (uriPath : Bytes) : Bool :=
  if uriPath.isEmpty then false
  else if uriPath.head? == some dot then true
  else hasMarkerByte uriPath

def blockedDotSegment (isFirst : Bool) : List Bytes → Bool
  | [] => false
  | seg :: rest =>
    if !startsWithByte dot seg then blockedDotSegment false rest
    else if seg = wellKnown && isFirst then
      match rest with
      | next :: rest =>
        if !next.isEmpty && !startsWithByte dot next then blockedDotSegment false rest else true
      | [] => true
    else true

/-- Whether a decoded path has a segment that starts with `.`, other than a
first `.well-known` with a sub-path. -/
def containsBlockedDotSegment (decoded : Bytes) : Bool :=
  blockedDotSegment true ((segments decoded).filter fun s => !s.isEmpty)

/-- The scan of the fast path, after the leading `/`. -/
def isCleanFrom (atSegmentStart : Bool) : Bytes → Bool
  | [] => true
  | b :: rest =>
    if b = slash then
      if atSegmentStart then false else isCleanFrom true rest
    else if atSegmentStart && b = dot then
      match rest with
      | [] => false
      | c :: rest' =>
        if c = slash then false
        else if c = dot then
          match rest' with
          | [] => false
          | d :: rest'' => if d = slash then false else isCleanFrom false (c :: d :: rest'')
        else isCleanFrom false (c :: rest')
    else isCleanFrom false rest

/-- The path without its leading `/`, when it is already in canonical form. -/
def alreadySanitized (path : Bytes) : Option Bytes :=
  match path with
  | b :: rest =>
    if rest.isEmpty || b ≠ slash || path.getLast? == some slash then none
    else if isCleanFrom true rest then some rest else none
  | [] => none

def keepsSegment (segment : Bytes) : Bool :=
  !segment.isEmpty && segment ≠ [dot, dot] && segment ≠ [dot]

def pushSegment (result segment : Bytes) : Bytes :=
  if keepsSegment segment then
    (if result.isEmpty then result else result ++ [slash]) ++ segment
  else result

/-- Remove `..`, `.` and empty segments from a path. -/
def sanitizePath (path : Bytes) : Bytes :=
  match alreadySanitized path with
  | some clean => clean
  | none => (segments path).foldl pushSegment []

/-! ## `.php` components -/

variable {ext s sanitized uriPath seg path : Bytes} {b : UInt8} {ha start : Bool}
  {segs : List Bytes}

theorem eqIgnoreAsciiCase_dotPhp_iff : eqIgnoreAsciiCase ext (str ".php") = true ↔
      ∃ p h q, ext = [dot, p, h, q] ∧ toAsciiLower p = 112 ∧ toAsciiLower h = 104 ∧
        toAsciiLower q = 112 := by
  have hphp : (str ".php").map toAsciiLower = [46, 112, 104, 112] := by decide
  rw [eqIgnoreAsciiCase, hphp, beq_iff_eq]
  constructor
  · intro heq
    obtain ⟨a, p, h, q, rfl⟩ : ∃ a p h q, ext = [a, p, h, q] :=
      List.length_eq_four.mp (by simpa using congrArg List.length heq)
    simp only [List.map_cons, List.map_nil, List.cons.injEq, and_true] at heq
    obtain ⟨ha, hp, hh, hq⟩ := heq
    exact ⟨p, h, q, by rw [(toAsciiLower_eq_dot_iff a).mp ha], hp, hh, hq⟩
  · rintro ⟨p, h, q, rfl, hp, hh, hq⟩
    simp [hp, hh, hq, (toAsciiLower_eq_dot_iff dot).mpr rfl]

theorem isPhpMarker_iff {p h q : UInt8} {after : Bytes} : isPhpMarker p h q after = true ↔
      eqIgnoreAsciiCase [dot, p, h, q] (str ".php") = true ∧
        (after = [] ∨ after.head? = some slash) := by
  simp only [isPhpMarker, eqIgnoreAsciiCase_dotPhp_iff, Bool.and_eq_true, Bool.or_eq_true,
    beq_iff_eq, or_0x20_eq_p_iff, or_0x20_eq_h_iff, List.isEmpty_iff, List.cons.injEq, true_and,
    and_true]
  constructor
  · rintro ⟨⟨⟨hp, hh⟩, hq⟩, ha⟩
    exact ⟨⟨p, h, q, ⟨rfl, rfl, rfl⟩, hp, hh, hq⟩, ha⟩
  · rintro ⟨⟨p, h, q, ⟨rfl, rfl, rfl⟩, hp, hh, hq⟩, ha⟩
    exact ⟨⟨⟨hp, hh⟩, hq⟩, ha⟩

theorem hasPhpComponent_cons_of_ne (hb : b ≠ dot) (s : Bytes) :
    hasPhpComponent (b :: s) = hasPhpComponent s := by
  conv => lhs; unfold hasPhpComponent
  rw [if_neg hb]

theorem hasPhpComponent_dot_cons (p h q : UInt8) (after : Bytes) :
    hasPhpComponent (dot :: p :: h :: q :: after) =
      (isPhpMarker p h q after || hasPhpComponent (p :: h :: q :: after)) := by
  rw [hasPhpComponent, if_pos rfl]
  cases isPhpMarker p h q after <;> rfl

/-- The scan finds `.php` before a `/` or the end wherever it stands: stopping
early loses no match, as three bytes must follow the `.`. -/
theorem hasPhpComponent_iff_exists_append : hasPhpComponent s = true ↔
      ∃ stem ext after, s = stem ++ (ext ++ after) ∧
        eqIgnoreAsciiCase ext (str ".php") = true ∧ (after = [] ∨ after.head? = some slash) := by
  constructor
  · intro hs
    induction s with
    | nil => cases hs
    | cons b s ih =>
      have hrec (hs : hasPhpComponent s = true) : ∃ stem ext after,
          b :: s = stem ++ (ext ++ after) ∧ eqIgnoreAsciiCase ext (str ".php") = true ∧
            (after = [] ∨ after.head? = some slash) := by
        obtain ⟨stem, ext, after, hcat, hext, ha⟩ := ih hs
        exact ⟨b :: stem, ext, after, by rw [hcat]; rfl, hext, ha⟩
      by_cases hb : b = dot
      · subst hb
        match s, hs with
        | p :: h :: q :: after, hs =>
          rw [hasPhpComponent_dot_cons, Bool.or_eq_true] at hs
          rcases hs with hm | hs
          · obtain ⟨hext, ha⟩ := isPhpMarker_iff.mp hm
            exact ⟨[], [dot, p, h, q], after, rfl, hext, ha⟩
          · exact hrec hs
      · rw [hasPhpComponent_cons_of_ne hb] at hs
        exact hrec hs
  · rintro ⟨stem, ext, after, rfl, hext, ha⟩
    obtain ⟨p, h, q, rfl, -, -, -⟩ := eqIgnoreAsciiCase_dotPhp_iff.mp hext
    have hm := isPhpMarker_iff.mpr ⟨hext, ha⟩
    induction stem with
    | nil =>
      simp only [List.nil_append, List.cons_append, hasPhpComponent_dot_cons, hm, Bool.true_or]
    | cons b stem ih =>
      by_cases hb : b = dot
      · subst hb
        -- at least four bytes follow the dot, so the scan goes on
        obtain ⟨x, y, z, rest, hr⟩ : ∃ x y z rest,
            stem ++ ([dot, p, h, q] ++ after) = x :: y :: z :: rest := by
          match stem with
          | [] => exact ⟨_, _, _, _, rfl⟩
          | [_] => exact ⟨_, _, _, _, rfl⟩
          | [_, _] => exact ⟨_, _, _, _, rfl⟩
          | _ :: _ :: _ :: _ => exact ⟨_, _, _, _, rfl⟩
        rw [List.cons_append, hr, hasPhpComponent_dot_cons, ← hr, ih, Bool.or_true]
      · rw [List.cons_append, hasPhpComponent_cons_of_ne hb, ih]

theorem slash_not_mem_dotPhp (h : eqIgnoreAsciiCase ext (str ".php") = true) : slash ∉ ext := by
  intro hmem
  have hl : slash ∈ ext.map toAsciiLower :=
    List.mem_map.mpr ⟨slash, hmem, (toAsciiLower_eq_slash_iff slash).mpr rfl⟩
  rw [beq_iff_eq.mp h] at hl
  exact absurd hl (by decide)

/-- **The `.php` scan is complete**: it finds a component exactly when one of
the `/`-separated components ends in `.php`. -/
theorem hasPhpComponent_iff :
    hasPhpComponent s = true ↔ ∃ seg ∈ segments s, Config.namesAScript seg = true := by
  rw [hasPhpComponent_iff_exists_append]
  constructor
  · rintro ⟨stem, ext, after, rfl, hext, ha⟩
    obtain ⟨init, last, -, hse⟩ := segments_append_of_slash_not_mem stem (slash_not_mem_dotPhp hext)
    have hlast : Config.namesAScript (last ++ ext) = true :=
      endsWithIgnoreAsciiCase_iff.mpr ⟨last, ext, rfl, hext⟩
    refine ⟨last ++ ext, ?_, hlast⟩
    rw [← List.append_assoc]
    rcases ha with rfl | ha
    · simp [hse]
    · obtain ⟨rest, rfl⟩ := List.head?_eq_some_iff.mp ha
      rw [segments_append_slash, hse]
      simp
  · rintro ⟨seg, hmem, hseg⟩
    obtain ⟨before, after, hs, ha⟩ := exists_append_of_mem_segments hmem
    obtain ⟨stem, ext, rfl, hext⟩ := endsWithIgnoreAsciiCase_iff.mp hseg
    exact ⟨before ++ stem, ext, after, by simp [hs], hext, ha⟩

theorem namesAScript_iff_last {last : Bytes} {init : List Bytes} (h : segments s = init ++ [last]) :
    Config.namesAScript s = true ↔ Config.namesAScript last = true := by
  simp only [Config.namesAScript, endsWithIgnoreAsciiCase_iff]
  constructor
  · rintro ⟨stem, ext, rfl, hext⟩
    obtain ⟨init', last', -, hse⟩ :=
      segments_append_of_slash_not_mem stem (slash_not_mem_dotPhp hext)
    obtain ⟨-, hlast⟩ := List.append_inj' (hse.symm.trans h) rfl
    exact ⟨last', ext, (List.cons.inj hlast).1.symm, hext⟩
  · rintro ⟨stem, ext, rfl, hext⟩
    have hs : s = joinSegments (init ++ [stem ++ ext]) := by rw [← h, joinSegments_segments]
    by_cases hin : init = []
    · exact ⟨stem, ext, by rw [hs, hin, List.nil_append, joinSegments_singleton], hext⟩
    · refine ⟨joinSegments init ++ slash :: stem, ext, ?_, hext⟩
      rw [hs, joinSegments_append hin (by simp), joinSegments_singleton]
      simp

/-! ## Classification -/

theorem extensionKind_ne_php (filename : Bytes) : extensionKind filename ≠ .php := by
  unfold extensionKind
  split
  · simp
  · split
    · simp
    · simp
    · split <;> simp

theorem classifyUriWithPhp_eq_php : classifyUriWithPhp sanitized ha = .php ↔ ha = true := by
  unfold classifyUriWithPhp
  split
  · next h => simp [h]
  · next h =>
    refine iff_of_false ?_ h
    split
    · next filename _ => exact extensionKind_ne_php filename
    · exact extensionKind_ne_php sanitized

theorem classifyUriWithPhp_eq_otherExtension
    (h : classifyUriWithPhp sanitized ha = .otherExtension) : ha = false ∧ sanitized ≠ [] := by
  cases ha with
  | true => cases h
  | false =>
    refine ⟨rfl, ?_⟩
    rintro rfl
    cases h

/-! ## The dot-segment screen -/

/-- No segment starts with `.`, other than a first `.well-known` that another
segment follows. -/
def DotSafe (segs : List Bytes) : Prop :=
  (∀ seg ∈ segs, startsWithByte dot seg = false) ∨
    ∃ next rest, segs = wellKnown :: next :: rest ∧
      ∀ seg ∈ next :: rest, startsWithByte dot seg = false

theorem blockedDotSegment_false (h : blockedDotSegment false segs = false) :
    ∀ seg ∈ segs, startsWithByte dot seg = false := by
  induction segs with
  | nil => simp
  | cons seg segs ih =>
    unfold blockedDotSegment at h
    split at h
    · next hseg => exact List.forall_mem_cons.mpr ⟨by simpa using hseg, ih h⟩
    · simp at h

theorem dotSafe_of_not_blocked (h : blockedDotSegment true segs = false) : DotSafe segs := by
  match segs with
  | [] => exact .inl (by simp)
  | seg :: rest =>
    unfold blockedDotSegment at h
    split at h
    · next hseg =>
      exact .inl (List.forall_mem_cons.mpr ⟨by simpa using hseg, blockedDotSegment_false h⟩)
    · split at h
      · next hw =>
        match rest, h with
        | next :: rest, h =>
          simp only at h
          split at h
          · next hn =>
            simp only [Bool.and_eq_true, Bool.not_eq_true'] at hn
            have hfirst : seg = wellKnown := by simpa using hw
            exact .inr ⟨next, rest, by rw [hfirst],
              List.forall_mem_cons.mpr ⟨hn.2, blockedDotSegment_false h⟩⟩
          · cases h
      · cases h

theorem no_dot_segment (hh : s.head? ≠ some dot)
    (ht : ∀ seg ∈ (segments s).tail, startsWithByte dot seg = false) :
    ∀ seg ∈ segments s, startsWithByte dot seg = false := by
  obtain ⟨first, others, hsplit⟩ := List.exists_cons_of_ne_nil (segments_ne_nil s)
  rw [hsplit] at ht ⊢
  refine List.forall_mem_cons.mpr ⟨?_, ht⟩
  by_contra hdot
  have hfirst : first.head? = some dot := by simpa [startsWithByte] using hdot
  exact hh ((head?_eq_of_segments_eq hsplit (by rintro rfl; cases hfirst)).trans hfirst)

theorem hasMarkerByte_false (h : hasMarkerByte s = false) :
    percent ∉ s ∧ ∀ seg ∈ (segments s).tail, startsWithByte dot seg = false := by
  induction s with
  | nil => simp [segments]
  | cons b s ih =>
    unfold hasMarkerByte at h
    split at h
    · cases h
    · next hp =>
      split at h
      · cases h
      · next hs =>
        obtain ⟨ht, hse⟩ := ih h
        refine ⟨by simp [ht, Ne.symm hp], ?_⟩
        by_cases hb : b = slash
        · -- the component after a separator starts where the scan looked ahead
          subst hb
          rw [segments_cons_slash, List.tail_cons]
          exact no_dot_segment (fun hh => by simp [hh] at hs) hse
        · rw [segments_cons_of_ne hb]
          obtain ⟨first, others, hsplit⟩ := List.exists_cons_of_ne_nil (segments_ne_nil s)
          rw [hsplit] at hse ⊢
          exact hse

theorem hasDotSegmentMarkers_false (h : hasDotSegmentMarkers uriPath = false) :
    percent ∉ uriPath ∧ ∀ seg ∈ segments uriPath, startsWithByte dot seg = false := by
  unfold hasDotSegmentMarkers at h
  split at h
  · next he =>
    rw [List.isEmpty_iff.mp he]
    simp [segments, startsWithByte]
  · split at h
    · cases h
    · next hh =>
      obtain ⟨hp, hs⟩ := hasMarkerByte_false h
      exact ⟨hp, no_dot_segment (fun hd => by simp [hd] at hh) hs⟩

theorem startsWithWellKnown_iff :
    startsWithWellKnown s = true ↔ ∃ next rest, segments s = wellKnown :: next :: rest := by
  have hf : slash ∉ wellKnown := by decide
  rw [startsWithWellKnown, List.isPrefixOf_iff_prefix]
  constructor
  · rintro ⟨t, rfl⟩
    obtain ⟨next, rest, ht⟩ := List.exists_cons_of_ne_nil (segments_ne_nil t)
    rw [List.append_assoc, List.singleton_append, segments_append_slash,
      segments_of_slash_not_mem hf, ht]
    exact ⟨next, rest, rfl⟩
  · rintro ⟨next, rest, hs⟩
    refine ⟨joinSegments (next :: rest), ?_⟩
    rw [← joinSegments_segments s, hs, joinSegments_cons_cons]
    simp

/-! ## The sanitizer -/

def keptSegments (path : Bytes) : List Bytes := (segments path).filter keepsSegment

theorem joinSegments_isEmpty_iff (h : ∀ seg ∈ segs, seg ≠ []) :
    (joinSegments segs).isEmpty = true ↔ segs = [] := by
  match segs with
  | [] => simp [joinSegments]
  | [seg] => simpa [joinSegments] using h seg (by simp)
  | seg :: next :: rest => simp [joinSegments_cons_cons]

theorem keepsSegment_ne_nil (h : keepsSegment seg = true) : seg ≠ [] := by
  rintro rfl
  cases h

theorem foldl_pushSegment {acc : List Bytes} (hacc : ∀ seg ∈ acc, seg ≠ []) (segs : List Bytes) :
    segs.foldl pushSegment (joinSegments acc) = joinSegments (acc ++ segs.filter keepsSegment) := by
  induction segs generalizing acc with
  | nil => simp
  | cons seg segs ih =>
    rw [List.foldl_cons, pushSegment]
    split
    · next hk =>
      have hs : (if (joinSegments acc).isEmpty then joinSegments acc
          else joinSegments acc ++ [slash]) ++ seg = joinSegments (acc ++ [seg]) := by
        by_cases hnil : acc = []
        · simp [hnil, joinSegments]
        · rw [if_neg (by simpa [joinSegments_isEmpty_iff hacc] using hnil),
            joinSegments_append hnil (by simp)]
          simp [joinSegments]
      have hacc' : ∀ x ∈ acc ++ [seg], x ≠ [] := by
        intro x hx
        rcases List.mem_append.mp hx with hx | hx
        · exact hacc x hx
        · rw [List.mem_singleton.mp hx]
          exact keepsSegment_ne_nil hk
      rw [hs, ih hacc', List.filter_cons_of_pos hk]
      simp
    · next hk => rw [ih hacc, List.filter_cons_of_neg hk]

/-- What the fast path's scan accepts: every segment but the one it starts in,
and that one too when it starts at its first byte. -/
def CleanFrom (start : Bool) (s : Bytes) : Prop :=
  (∀ seg ∈ (segments s).tail, keepsSegment seg = true) ∧
    (start = true → s ≠ [] → ∀ seg ∈ segments s, keepsSegment seg = true)

theorem CleanFrom.cons {rest : Bytes} (hb : b ≠ slash) (hr : CleanFrom false rest)
    (hfirst : start = true → ∀ first others, segments rest = first :: others →
      keepsSegment (b :: first) = true) : CleanFrom start (b :: rest) := by
  obtain ⟨first, others, hsplit, hc⟩ := exists_segments_cons hb rest
  have ht := hr.1
  rw [hsplit, List.tail_cons] at ht
  unfold CleanFrom
  rw [hc, List.tail_cons]
  exact ⟨ht, fun hs _ => List.forall_mem_cons.mpr ⟨hfirst hs first others hsplit, ht⟩⟩

theorem getLast?_cons_ne {c : UInt8} (h : (b :: s).getLast? ≠ some c)
    (hne : s ≠ []) : s.getLast? ≠ some c := by
  rwa [List.getLast?_cons_of_ne_nil hne] at h

theorem cleanFrom_of_isCleanFrom (hcl : isCleanFrom start s = true)
    (hlast : s.getLast? ≠ some slash) : CleanFrom start s := by
  fun_induction isCleanFrom start s with
  | case1 => simp [CleanFrom, segments]
  | case3 start rest hst ih =>
    have hne : rest ≠ [] := by
      rintro rfl
      simp at hlast
    have hr := (ih hcl (getLast?_cons_ne hlast hne)).2 rfl hne
    unfold CleanFrom
    rw [segments_cons_slash, List.tail_cons]
    exact ⟨hr, fun hs => absurd hs hst⟩
  | case8 start b hb hdot d rest hd hds ih =>
    -- the segment opens with two dots and a further byte
    refine CleanFrom.cons hb (ih hcl (getLast?_cons_ne hlast (by simp))) ?_
    intro _ first others hsplit
    obtain ⟨first', others', hd', hdot'⟩ := exists_segments_cons hds (d :: rest)
    obtain ⟨first'', others'', -, hd''⟩ := exists_segments_cons hd rest
    rw [hd'', List.cons.injEq] at hd'
    rw [hdot', ← hd'.1, List.cons.injEq] at hsplit
    rw [← hsplit.1]
    simp [keepsSegment]
  | case9 start b hb hdot c rest hc hcd ih =>
    refine CleanFrom.cons hb (ih hcl (getLast?_cons_ne hlast (by simp))) ?_
    intro _ first others hsplit
    obtain ⟨first', others', -, hc'⟩ := exists_segments_cons hc rest
    rw [hc', List.cons.injEq] at hsplit
    rw [← hsplit.1]
    simp [keepsSegment, hcd]
  | case10 start b rest hb hdot ih =>
    by_cases hne : rest = []
    · subst hne
      refine CleanFrom.cons hb (by simp [CleanFrom, segments]) ?_
      intro hs first others hsplit
      simp only [hs, Bool.true_and, decide_eq_true_eq] at hdot
      simp [keepsSegment, hdot]
    · refine CleanFrom.cons hb (ih hcl (getLast?_cons_ne hlast hne)) ?_
      intro hs first others hsplit
      simp only [hs, Bool.true_and, decide_eq_true_eq] at hdot
      simp [keepsSegment, hdot]
  | _ => cases hcl

theorem alreadySanitized_eq_some {clean : Bytes} (h : alreadySanitized path = some clean) :
    path = slash :: clean ∧ ∀ seg ∈ segments clean, keepsSegment seg = true := by
  unfold alreadySanitized at h
  match path, h with
  | b :: rest, h =>
    simp only [Option.ite_none_left_eq_some, Option.ite_none_right_eq_some, Option.some.injEq] at h
    obtain ⟨hs, hc, rfl⟩ := h
    simp only [Bool.or_eq_true, List.isEmpty_iff, decide_eq_true_eq, ne_eq, not_or, not_not,
      beq_iff_eq] at hs
    obtain ⟨⟨hne, rfl⟩, hlast⟩ := hs
    have hf := cleanFrom_of_isCleanFrom hc (getLast?_cons_ne hlast hne)
    exact ⟨rfl, hf.2 rfl hne⟩

/-- **The fast path agrees with the loop**: the sanitizer joins the segments it
keeps, whichever way it ran. -/
theorem sanitizePath_eq (path : Bytes) : sanitizePath path = joinSegments (keptSegments path) := by
  unfold sanitizePath
  split
  · next clean hf =>
    obtain ⟨rfl, hc⟩ := alreadySanitized_eq_some hf
    have hk : keptSegments (slash :: clean) = segments clean := by
      rw [keptSegments, segments_cons_slash, List.filter_cons_of_neg (by decide),
        List.filter_eq_self.mpr hc]
    rw [hk, joinSegments_segments]
  · have hl := foldl_pushSegment (List.forall_mem_nil (· ≠ [])) (segments path)
    simpa [joinSegments, keptSegments] using hl

theorem keptSegments_sanitizePath (path : Bytes) :
    keptSegments (sanitizePath path) = keptSegments path := by
  rw [sanitizePath_eq]
  by_cases hn : keptSegments path = []
  · rw [hn]
    rfl
  · rw [keptSegments, segments_joinSegments _ hn]
    · exact List.filter_eq_self.mpr fun seg hseg => List.of_mem_filter hseg
    · exact fun seg hseg => slash_not_mem_of_mem_segments (List.mem_of_mem_filter hseg)

theorem blockedDotSegment_of_forall (isFirst : Bool)
    (h : ∀ seg ∈ segs, startsWithByte dot seg = false) :
    blockedDotSegment isFirst segs = false := by
  induction segs generalizing isFirst with
  | nil => rfl
  | cons seg segs ih =>
    obtain ⟨hseg, hs⟩ := List.forall_mem_cons.mp h
    unfold blockedDotSegment
    rw [hseg]
    exact ih false hs

/-- **The sanitizer is the filter of segments it stands for**, and sanitizing again
changes nothing, with or without a leading `/`; the scan for markers is as good as
decoding and looking for dot segments. -/
theorem sanitizePath_and_screen_exact (path uriPath : Bytes) : (sanitizePath path =
        joinSegments ((segments path).filter fun seg => seg ∉ [[], [dot], [dot, dot]]) ∧
      sanitizePath (sanitizePath path) = sanitizePath path ∧
      sanitizePath (slash :: sanitizePath path) = sanitizePath path) ∧
    (hasDotSegmentMarkers uriPath = false →
      percentDecode uriPath = uriPath ∧
        decodeUtf8 uriPath = (if isUtf8 uriPath then some uriPath else none) ∧
        containsBlockedDotSegment uriPath = false) := by
  refine ⟨⟨?_, ?_, ?_⟩, fun hn => ?_⟩
  · rw [sanitizePath_eq, keptSegments]
    congr 2
    funext seg
    cases seg <;> simp [keepsSegment, Bool.and_comm]
  · rw [sanitizePath_eq (sanitizePath path), keptSegments_sanitizePath, ← sanitizePath_eq]
  · rw [sanitizePath_eq (slash :: sanitizePath path), keptSegments, segments_cons_slash,
      List.filter_cons_of_neg (by decide), ← keptSegments, keptSegments_sanitizePath,
      ← sanitizePath_eq]
  · obtain ⟨hp, hs⟩ := hasDotSegmentMarkers_false hn
    have hd := percentDecode_of_percent_not_mem hp
    refine ⟨hd, by rw [decodeUtf8, hd], ?_⟩
    exact blockedDotSegment_of_forall true fun seg hseg => hs seg (List.mem_of_mem_filter hseg)

theorem sanitizePath_and_screen_exact_nested :
    sanitizePath (sanitizePath (str "/a/../b//.c")) = sanitizePath (str "/a/../b//.c") ∧
      percentDecode (str "/a/b.c") = str "/a/b.c" :=
  ⟨(sanitizePath_and_screen_exact _ []).1.2.1,
    ((sanitizePath_and_screen_exact [] (str "/a/b.c")).2 (by decide)).1⟩

/-! ## A path that passed the screen -/

/-- The segments of a screened path: joined they are the sanitized path, and
none of them is a dot segment. -/
structure Screened (segs : List Bytes) : Prop where
  slash_free : ∀ seg ∈ segs, slash ∉ seg
  kept : ∀ seg ∈ segs, keepsSegment seg = true
  dot_safe : DotSafe segs

theorem keptSegments_slash_free (h : seg ∈ keptSegments path) : slash ∉ seg :=
  slash_not_mem_of_mem_segments (List.mem_of_mem_filter h)

theorem keptSegments_kept (h : seg ∈ keptSegments path) : keepsSegment seg = true :=
  List.of_mem_filter h

theorem keepsSegment_of_ne_nil (hne : seg ≠ [])
    (hdot : startsWithByte dot seg = false) : keepsSegment seg = true := by
  obtain ⟨b, seg, rfl⟩ := List.exists_cons_of_ne_nil hne
  have hb : b ≠ dot := by simpa [startsWithByte] using hdot
  simp [keepsSegment, hb]

theorem dotSafe_filter {p : Bytes → Bool} (h : DotSafe segs)
    (hk : ∀ seg ∈ segs, startsWithByte dot seg = false → p seg = true)
    (hw : p wellKnown = true) : DotSafe (segs.filter p) := by
  rcases h with h | ⟨next, rest, rfl, h⟩
  · exact .inl fun seg hseg => h seg (List.mem_of_mem_filter hseg)
  · refine .inr ⟨next, rest, ?_, h⟩
    refine List.filter_eq_self.mpr fun seg hseg => ?_
    rcases List.mem_cons.mp hseg with rfl | hmem
    · exact hw
    · exact hk seg hseg (h seg hmem)

theorem screened_of_not_blocked {decoded : Bytes}
    (h : containsBlockedDotSegment decoded = false) : Screened (keptSegments decoded) where
  slash_free _ := keptSegments_slash_free
  kept _ := keptSegments_kept
  dot_safe := by
    have hf : keptSegments decoded =
        ((segments decoded).filter fun s => !s.isEmpty).filter keepsSegment := by
      rw [keptSegments, List.filter_filter]
      refine List.filter_congr fun seg _ => ?_
      cases seg <;> simp [keepsSegment]
    rw [hf]
    refine dotSafe_filter (dotSafe_of_not_blocked h) ?_ (by decide)
    intro seg hseg hdot
    have hne : seg ≠ [] := by simpa using List.of_mem_filter hseg
    exact keepsSegment_of_ne_nil hne hdot

theorem screened_of_no_markers (h : hasDotSegmentMarkers uriPath = false) :
    Screened (keptSegments uriPath) where
  slash_free _ := keptSegments_slash_free
  kept _ := keptSegments_kept
  dot_safe := .inl fun seg hseg =>
    (hasDotSegmentMarkers_false h).2 seg (List.mem_of_mem_filter hseg)

theorem Screened.plain (h : Screened segs) (hne : segs ≠ []) : UnixPath.Plain segs where
  ne_nil := hne
  slash_free := h.slash_free
  named seg hseg := by
    have hk := h.kept seg hseg
    simp only [keepsSegment, Bool.and_eq_true, Bool.not_eq_true', decide_eq_true_eq] at hk
    simpa [UnixPath.namesSomething, hk.2] using List.isEmpty_eq_false_iff.mp hk.1.1

end OxPhp.Routing
