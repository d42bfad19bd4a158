import OxPhp.Lib.Except
import OxPhp.Lib.Glob
import OxPhp.Lib.Trim

/-!
# Character classes of a rule

`copy_class` of `config/ignore_rules.rs` rewrites a class of a gitignore pattern
for another reader.  git reads a class with `wildmatch`, globset with its own
grammar; where both accept what was written, the copy is read as git reads the
original.
-/

namespace OxPhp.Config

open ByteStr Glob

inductive ClassError
  | backslash
  | posixClass
  | namesSeparator (text : Bytes)
  | namesLetter (text : Bytes)
  | dashAfterRange
  | backwards (lo hi : UInt8)
  | notAscii (lead : UInt8)
  deriving DecidableEq

/-! ## The copy -/

/-- `[:` closed by `:]` before the next `]`. -/
def opensPosixClass (rest : Bytes) : Bool :=
  match rest with
  | 58 :: name =>
    match splitOnce closeBracket name with
    | some (name, _) => endsWithByte 58 name
    | none => false
  | _ => false

def namesAsciiLetter (lo hi : UInt8) : Bool := (lo ≤ 90 && hi ≥ 65) || (lo ≤ 122 && hi ≥ 97)

/-- What `copy_class` knows of the class so far; `out` is what it has written
behind the `[`. -/
structure ClassState where
  first : Bool
  openRange : Bool
  closedRange : Bool
  last : UInt8
  cased : Bool
  out : Bytes

/-- Whether globset matches the separator with the class. -/
def namesSeparator (text : Bytes) : Bool :=
  match readClass text with
  | some (c, _) => c.holds false slash
  | none => false

def ClassState.close (negated : Bool) (st : ClassState) : Bytes :=
  if negated then
    st.out.take (st.out.length - st.openRange.toNat) ++ slash ::
      st.out.drop (st.out.length - st.openRange.toNat) ++ [closeBracket]
  else st.out ++ [closeBracket]

/-- One character that does not close the class, with what follows it. -/
def ClassState.copy (negated ignoreCase : Bool) (st : ClassState) (c : UInt8) (rest : Bytes) :
    Except ClassError ClassState :=
  if c = backslash then .error .backslash
  else if c = bracket ∧ opensPosixClass rest then .error .posixClass
  else if c = dash ∧ !st.first then
    if st.closedRange ∧ rest.head? ≠ some closeBracket then .error .dashAfterRange
    else if st.openRange ∧ dash < st.last then .error (.backwards st.last dash)
    else .ok ⟨false, !st.openRange, st.openRange, st.last, st.cased, st.out ++ [c]⟩
  else if 128 ≤ c then .error (.notAscii c)
  else if st.openRange ∧ c < st.last then .error (.backwards st.last c)
  else
    let cased := negated && ignoreCase && namesAsciiLetter (if st.openRange then st.last else c) c
    .ok ⟨false, false, st.openRange, c, st.cased || cased, st.out ++ [c]⟩

/-- The text written behind the `[` and how many characters it took. -/
def copyClassFrom (negated ignoreCase : Bool) (st : ClassState) :
    Bytes → Except ClassError (Bytes × Nat)
  | [] => .ok (st.out, 0)
  | c :: rest =>
    if c = closeBracket ∧ !st.first then
      if namesSeparator (st.close negated) then
        .error (.namesSeparator (bracket :: st.close negated))
      else if st.cased then .error (.namesLetter (bracket :: st.close negated))
      else .ok (st.close negated, 1)
    else do
      let st ← st.copy negated ignoreCase c rest
      let (text, n) ← copyClassFrom negated ignoreCase st rest
      return (text, n + 1)

def copyClass (ignoreCase : Bool) (chars : Bytes) : Except ClassError (Bytes × Nat) :=
  if negates chars then do
    let (text, n) ← copyClassFrom true ignoreCase ⟨true, false, false, 0, false, chars.take 1⟩
      chars.tail
    return (bracket :: text, n + 1)
  else do
    let (text, n) ← copyClassFrom false ignoreCase ⟨true, false, false, 0, false, []⟩ chars
    return (bracket :: text, n)

/-! ## git's reading -/

section Git

variable (posix : Bytes → UInt8 → Option Bool) (t : UInt8)

/-- One turn of `wildmatch` inside a class: whether the text's byte `t` has
matched, the member a range can start from next, or NUL, and how much of `rest`
was read with `c`.  `posix` says what a named class matches. -/
def gitStep (prev : UInt8) (matched : Bool) (c : UInt8) (rest : Bytes) :
    Option (Bool × UInt8 × Nat) :=
  if c = backslash then rest.head?.map fun e => (matched || t = e, e, 1)
  else if c = dash ∧ prev ≠ 0 ∧ rest ≠ [] ∧ rest.head? ≠ some closeBracket then
    match rest with
    | [] => none
    | hi :: more =>
      if hi = backslash then more.head?.map fun e => (matched || (prev ≤ t && t ≤ e), 0, 2)
      else some (matched || (prev ≤ t && t ≤ hi), 0, 1)
  else if c = bracket ∧ rest.head? = some 58 then
    match splitOnce closeBracket rest.tail with
    | none => none
    | some (name, _) =>
      if endsWithByte 58 name then
        (posix name.dropLast t).map fun m => (matched || m, 0, name.length + 2)
      else some (matched || t = c, c, 0)
  else some (matched || t = c, c, 0)

def gitClassFrom : Nat → Bool → UInt8 → Bool → Bytes → Option (Bool × Nat)
  | _, _, _, _, [] => none
  | skip + 1, first, prev, matched, _ :: rest =>
    (gitClassFrom skip first prev matched rest).map fun (m, n) => (m, n + 1)
  | 0, first, prev, matched, c :: rest =>
    if c = closeBracket ∧ !first then some (matched, 1)
    else (gitStep posix t prev matched c rest).bind fun (matched, prev, skip) =>
      (gitClassFrom skip false prev matched rest).map fun (m, n) => (m, n + 1)

/-- Whether the class whose `[` was just read matches a byte of a path, and how
many characters it takes: no class matches a separator. -/
def gitClass (text : Bytes) : Option (Bool × Nat) :=
  if negates text then
    (gitClassFrom posix t 0 true 0 false text.tail).map fun (m, n) => (!m && t ≠ slash, n + 1)
  else (gitClassFrom posix t 0 true 0 false text).map fun (m, n) => (m && t ≠ slash, n)

variable {posix t} {prev : UInt8} {matched : Bool} {rest : Bytes}

theorem closeBracket_mem_of_gitClassFrom {skip : Nat} {first : Bool} {text : Bytes}
    {r : Bool × Nat} (h : gitClassFrom posix t skip first prev matched text = some r) :
    closeBracket ∈ text := by
  induction text generalizing skip first prev matched r with
  | nil => cases skip <;> cases h
  | cons c rest ih =>
    cases skip with
    | succ skip =>
      obtain ⟨r', h, -⟩ := Option.map_eq_some_iff.mp h
      exact List.mem_cons_of_mem _ (ih h)
    | zero =>
      simp only [gitClassFrom] at h
      split at h
      · next hc => simp [hc.1]
      · obtain ⟨step, -, h⟩ := Option.bind_eq_some_iff.mp h
        obtain ⟨r', h, -⟩ := Option.map_eq_some_iff.mp h
        exact List.mem_cons_of_mem _ (ih h)

theorem gitStep_range {d : UInt8} (hp : prev ≠ 0)
    (hend : d ≠ closeBracket) (hb : d ≠ backslash) : gitStep posix t prev matched dash (d :: rest) =
      some (matched || (prev ≤ t && t ≤ d), 0, 1) := by
  have hd : ¬ dash = backslash := by decide
  simp [gitStep, hd, hp, hend, hb]

theorem gitStep_member {c : UInt8} (hb : c ≠ backslash)
    (hd : c = dash → prev = 0 ∨ rest.head? = some closeBracket)
    (hp : c = bracket → opensPosixClass rest = false) (hc : closeBracket ∈ rest) :
    gitStep posix t prev matched c rest = some (matched || t = c, c, 0) := by
  have hr : ¬ (c = dash ∧ prev ≠ 0 ∧ rest ≠ [] ∧ rest.head? ≠ some closeBracket) :=
    fun h => (hd h.1).elim h.2.1 h.2.2.2
  unfold gitStep
  rw [if_neg hb, if_neg hr]
  split
  · next hn =>
    obtain ⟨rest, rfl⟩ : ∃ name, rest = 58 :: name := by
      cases rest with
      | nil => cases hc
      | cons b rest => exact ⟨rest, by simpa using hn.2⟩
    have hf := hp hn.1
    rcases splitOnce_cases closeBracket rest with ⟨hnot, -⟩ | ⟨name, after, -, -, hs⟩
    · exact absurd hc (by simpa [closeBracket] using hnot)
    · simp only [opensPosixClass, hs] at hf
      simp [hs, hf]
  · rfl

end Git

/-! ## The two readings -/

section Simulation

variable {posix : Bytes → UInt8 → Option Bool} {negated ignoreCase : Bool}
  {st : ClassState} {ranges : List (UInt8 × UInt8)} {rest : Bytes}

/-- What globset has read of the text written so far, outside a range. -/
structure Reading (negated ignoreCase : Bool) (st : ClassState) (ranges : List (UInt8 × UInt8)) :
    Prop where
  outside : st.openRange = false
  read : ∀ more, (st.first = true → negated = false → negates more = false) →
    readClass (st.out ++ more) =
      (readClassFrom negated ⟨ranges, false, st.first⟩ more).map
        fun r => (r.1, r.2 + st.out.length)
  last : st.first = false → st.closedRange = false →
    st.last ≠ 0 ∧ ∃ older, ranges = (st.last, st.last) :: older
  caseless : negated = true → ignoreCase = true → st.cased = false → Caseless ranges

def ClassState.prev (st : ClassState) : UInt8 :=
  if st.first || st.closedRange then 0 else st.last

/-- What became of a class: globset reads the copy as `c` and git reads the
original likewise, or the class is unclosed. -/
def Agrees (posix : Bytes → UInt8 → Option Bool) (negated ignoreCase : Bool) (st : ClassState)
    (ranges : List (UInt8 × UInt8)) (rest text : Bytes) (n : Nat) : Prop :=
  (∃ final, (∀ more, readClass (text ++ more) = some (⟨negated, final⟩, text.length)) ∧
      (negated = true → ignoreCase = true → Caseless final) ∧
      (negated = false → inRanges final slash = false) ∧
      ∀ t, ∃ m, gitClassFrom posix t 0 st.first st.prev (inRanges ranges t) rest = some (m, n) ∧
        inRanges final t = (m || (negated && t = slash))) ∨
    readClass text = none ∧ n = rest.length

theorem inRanges_cons (lo hi t : UInt8) (ranges : List (UInt8 × UInt8)) :
    inRanges ((lo, hi) :: ranges) t = (lo ≤ t && t ≤ hi || inRanges ranges t) := by
  simp [inRanges]

theorem inRanges_self (c t : UInt8) (ranges : List (UInt8 × UInt8)) :
    inRanges ((c, c) :: ranges) t = (inRanges ranges t || t = c) := by
  rw [inRanges_cons, Bool.or_comm]
  congr 1
  rw [Bool.eq_iff_iff]
  simp only [Bool.and_eq_true, decide_eq_true_eq]
  exact ⟨fun h => UInt8.le_antisymm h.2 h.1, fun h => h ▸ ⟨UInt8.le_refl _, UInt8.le_refl _⟩⟩

/-- The ranges globset ends with: a `-` left open, and what negation adds. -/
def closedRanges (negated opened : Bool) (ranges : List (UInt8 × UInt8)) : List (UInt8 × UInt8) :=
  (if opened then [(dash, dash)] else []) ++ (if negated then [(slash, slash)] else []) ++ ranges

theorem inRanges_closedRanges (opened : Bool) (t : UInt8) :
    inRanges (closedRanges negated opened ranges) t =
      (inRanges ranges t || (opened && t = dash) || (negated && t = slash)) := by
  cases negated <;> cases opened <;>
    simp [closedRanges, inRanges_self, Bool.or_assoc, Bool.or_comm]

theorem Reading.read_close (hr : Reading negated ignoreCase st ranges) (hfirst : st.first = false)
    (opened : Bool) (more : Bytes) :
    readClass (((st.out ++ if negated then [slash] else []) ++ (if opened then [dash] else []) ++
        [closeBracket]) ++ more) =
      some (⟨negated, closedRanges negated opened ranges⟩, ((st.out ++ if negated then [slash]
        else []) ++ (if opened then [dash] else []) ++ [closeBracket]).length) := by
  have hre := hr.read ((if negated then [slash] else []) ++ (if opened then [dash] else []) ++
    closeBracket :: more) (by simp [hfirst])
  simp only [List.append_assoc, List.cons_append, List.nil_append] at hre ⊢
  rw [hre]
  cases negated <;> cases opened <;>
    simp [readClassFrom, ClassReader.step, ClassReader.finish, closedRanges, hfirst, slash, dash,
      closeBracket] <;> omega

variable {text : Bytes} {n : Nat} {st' : ClassState} {c d last : UInt8} {cased : Bool}

theorem Reading.agrees_close (hr : Reading negated ignoreCase st ranges) (hfirst : st.first = false)
    (opened : Bool)
    (ht : text = (st.out ++ if negated then [slash] else []) ++ (if opened then [dash] else []) ++
      [closeBracket]) (hsep : namesSeparator text = false) (hc : st.cased = false)
    (hgit : ∀ t, gitClassFrom posix t 0 st.first st.prev (inRanges ranges t) rest =
      some (inRanges ranges t || (opened && t = dash), n)) :
    Agrees posix negated ignoreCase st ranges rest text n := by
  have hre := hr.read_close hfirst opened
  rw [← ht] at hre
  refine .inl ⟨_, hre, fun hneg hic b hb => ?_, fun hneg => ?_, fun t => ⟨_, hgit t, ?_⟩⟩
  · have hne : b ≠ dash ∧ b ≠ slash := by
      revert b
      exact forall_byte (by decide +kernel)
    rw [inRanges_closedRanges, hr.caseless hneg hic hc b hb]
    simp [hne]
  · have := hre []
    rw [List.append_nil] at this
    simpa [namesSeparator, this, ByteClass.holds, named, hneg] using hsep
  · rw [inRanges_closedRanges]

theorem Agrees.cons {ranges' : List (UInt8 × UInt8)} {rest' : Bytes}
    {k : Nat} (h : Agrees posix negated ignoreCase st' ranges' rest' text n)
    (hgit : ∀ t r, gitClassFrom posix t 0 st'.first st'.prev (inRanges ranges' t) rest' = some r →
      gitClassFrom posix t 0 st.first st.prev (inRanges ranges t) rest = some (r.1, r.2 + k))
    (hlen : rest.length = rest'.length + k) :
    Agrees posix negated ignoreCase st ranges rest text (n + k) := by
  refine h.imp ?_ (fun h => ⟨h.1, by omega⟩)
  rintro ⟨final, hr, hc, hsep, hb⟩
  refine ⟨final, hr, hc, hsep, fun t => ?_⟩
  obtain ⟨m, hm, hf⟩ := hb t
  exact ⟨m, hgit t _ hm, hf⟩

theorem letterless {lo hi : UInt8} (h : namesAsciiLetter lo hi = false) (b : UInt8)
    (hb : isLetter b = true) : (lo ≤ b && b ≤ hi) = false := by
  simp only [namesAsciiLetter, isLetter, isAsciiLower, isAsciiUpper, Bool.or_eq_true,
    Bool.or_eq_false_iff, Bool.and_eq_true, Bool.and_eq_false_iff, decide_eq_true_eq,
    decide_eq_false_iff_not, UInt8.le_iff_toNat_le, ge_iff_le] at h hb ⊢
  simp only [UInt8.toNat_ofNat] at h hb
  omega

theorem Reading.member (hr : Reading negated ignoreCase st ranges)
    (hm : st.first = true → negated = false → negates [c] = false)
    (hd : ¬ (c = dash ∧ st.first = false)) (hcl : ¬ (c = closeBracket ∧ st.first = false))
    (hnul : c ≠ 0) (hca : negated = true → ignoreCase = true → cased = false →
      st.cased = false ∧ namesAsciiLetter c c = false) :
    Reading negated ignoreCase ⟨false, false, false, c, cased, st.out ++ [c]⟩
      ((c, c) :: ranges) where
  outside := rfl
  last _ _ := ⟨hnul, ranges, rfl⟩
  read more _ := by
    rw [List.append_assoc, List.singleton_append, hr.read (c :: more) hm]
    have hs : ClassReader.step ⟨ranges, false, st.first⟩ c =
        some ⟨(c, c) :: ranges, false, false⟩ := by
      simp only [ClassReader.step]
      rw [if_neg (by simpa using hd)]
      simp
    rw [readClassFrom, if_neg (by simpa using hcl), hs]
    simp only [Option.bind_some]
    cases readClassFrom negated ⟨(c, c) :: ranges, false, false⟩ more <;> simp
    omega
  caseless hneg hic hc b hb := by
    obtain ⟨hold, hnew⟩ := hca hneg hic hc
    rw [inRanges_cons, letterless hnew b hb, hr.caseless hneg hic hold b hb]
    rfl

theorem Reading.range (hr : Reading negated ignoreCase st ranges)
    (hfirst : st.first = false) (hcl : st.closedRange = false) (hclo : d ≠ closeBracket)
    (hle : ¬ d < st.last) (hca : negated = true → ignoreCase = true → cased = false →
      st.cased = false ∧ namesAsciiLetter st.last d = false) : ∃ ranges', Reading negated ignoreCase
        ⟨false, false, true, last, cased, st.out ++ [dash] ++ [d]⟩ ranges' ∧
      ∀ t, inRanges ranges' t = (inRanges ranges t || (st.last ≤ t && t ≤ d)) := by
  obtain ⟨hlast, older, rfl⟩ := hr.last hfirst hcl
  refine ⟨(st.last, d) :: older, ⟨rfl, fun more _ => ?_, fun _ h => Bool.noConfusion h, ?_⟩,
    fun t => ?_⟩
  · rw [List.append_assoc, List.append_assoc, hr.read _ (by simp [hfirst])]
    have hd : ¬ dash = closeBracket := by decide
    simp only [readClassFrom, ClassReader.step, hfirst, hclo, hle, hd, List.cons_append,
      List.nil_append, Bool.not_false, Bool.not_true, false_and, and_true, and_false,
      if_true, if_false, Option.bind_some, Bool.false_eq_true]
    cases readClassFrom negated ⟨(st.last, d) :: older, false, false⟩ more <;> simp
    omega
  · intro hneg hic hc b hb
    obtain ⟨hold, hnew⟩ := hca hneg hic hc
    have := hr.caseless hneg hic hold b hb
    rw [inRanges_cons, Bool.or_eq_false_iff] at this
    rw [inRanges_cons, letterless hnew b hb, this.2]
    rfl
  · rw [inRanges_cons, inRanges_cons, Bool.eq_iff_iff]
    simp only [Bool.or_eq_true, Bool.and_eq_true, decide_eq_true_eq, UInt8.le_iff_toNat_le]
    rw [UInt8.lt_iff_toNat_lt] at hle
    constructor
    · rintro (h | h)
      · exact .inr h
      · exact .inl (.inr h)
    · rintro ((h | h) | h)
      · exact .inl ⟨h.1, by omega⟩
      · exact .inr h
      · exact .inl h

theorem ClassState.copy_member (ho : st.openRange = false)
    (hd : ¬ (c = dash ∧ st.first = false)) (h : st.copy negated ignoreCase c rest = .ok st') :
    c ≠ backslash ∧ (c = bracket → opensPosixClass rest = false) ∧
      ∃ cased, st' = ⟨false, false, false, c, cased, st.out ++ [c]⟩ ∧
        (negated = true → ignoreCase = true → cased = false →
          st.cased = false ∧ namesAsciiLetter c c = false) := by
  unfold ClassState.copy at h
  split at h
  · cases h
  · next hb =>
    split at h
    · cases h
    · next hp =>
      rw [if_neg (by simpa using hd)] at h
      split at h
      · cases h
      · simp only [ho, Bool.false_eq_true, false_and, if_false, Except.ok.injEq] at h
        refine ⟨hb, by simpa using hp, _, h.symm, fun hneg hic => ?_⟩
        simp [hneg, hic]

theorem ClassState.copy_dash (ho : st.openRange = false)
    (hfirst : st.first = false) (h : st.copy negated ignoreCase dash rest = .ok st') :
    (st.closedRange = true → rest.head? = some closeBracket) ∧
      st' = ⟨false, true, false, st.last, st.cased, st.out ++ [dash]⟩ := by
  have hb : ¬ dash = backslash := by decide
  have hbr : ¬ dash = bracket := by decide
  unfold ClassState.copy at h
  rw [if_neg hb, if_neg (by simp [hbr]), if_pos (by simp [hfirst])] at h
  split at h
  · cases h
  · next hc =>
    simp only [ho, Bool.false_eq_true, false_and, if_false, Except.ok.injEq] at h
    exact ⟨by simpa using hc, h.symm⟩

theorem ClassState.copy_end {out : Bytes}
    (h : ClassState.copy negated ignoreCase ⟨false, true, false, last, cased, out⟩ d rest =
      .ok st') :
    d ≠ backslash ∧ ¬ d < last ∧ ∃ last' cased',
      st' = ⟨false, false, true, last', cased', out ++ [d]⟩ ∧
        (negated = true → ignoreCase = true → cased' = false →
          cased = false ∧ namesAsciiLetter last d = false) := by
  unfold ClassState.copy at h
  split at h
  · cases h
  · next hb =>
    split at h
    · cases h
    · split at h
      · next hd =>
        simp only [Bool.false_eq_true, false_and, if_false, true_and] at h
        split at h
        · cases h
        · next hle =>
          cases h
          refine ⟨hb, hd.1 ▸ hle, last, cased, by simp, fun _ _ hc => ⟨hc, ?_⟩⟩
          have hu : ¬ dash ≥ 65 := by decide
          have hl : ¬ dash ≥ 97 := by decide
          simp [hd.1, namesAsciiLetter, hu, hl]
      · split at h
        · cases h
        · simp only [true_and, if_true] at h
          split at h
          · cases h
          · next hle =>
            cases h
            exact ⟨hb, hle, d, _, rfl, fun hneg hic => by simp [hneg, hic]⟩

theorem ok_of_copyClassFrom (hc : ¬ (c = closeBracket ∧ st.first = false))
    (h : copyClassFrom negated ignoreCase st (c :: rest) = .ok (text, n)) :
    ∃ st' k, st.copy negated ignoreCase c rest = .ok st' ∧ n = k + 1 ∧
      copyClassFrom negated ignoreCase st' rest = .ok (text, k) := by
  rw [copyClassFrom, if_neg (by simpa using hc)] at h
  obtain ⟨st', hco, h⟩ := ExceptInv.bind_eq_ok.mp h
  obtain ⟨⟨text', k⟩, hr, h⟩ := ExceptInv.bind_eq_ok.mp h
  cases h
  exact ⟨st', k, hco, rfl, hr⟩

theorem ok_of_close (hfirst : st.first = false)
    (h : copyClassFrom negated ignoreCase st (closeBracket :: rest) = .ok (text, n)) :
    text = st.close negated ∧ n = 1 ∧ namesSeparator text = false ∧ st.cased = false := by
  rw [copyClassFrom, if_pos (by simp [hfirst])] at h
  split at h
  · cases h
  · next hsep =>
    split at h
    · cases h
    · next hc =>
      cases h
      exact ⟨rfl, rfl, by simpa using hsep, by simpa using hc⟩

theorem Reading.agrees (hr : Reading negated ignoreCase st ranges)
    (hm : st.first = true → negated = false → negates rest = false) (hnul : 0 ∉ rest)
    (h : copyClassFrom negated ignoreCase st rest = .ok (text, n)) :
    Agrees posix negated ignoreCase st ranges rest text n := by
  induction hlen : rest.length using Nat.strongRecOn generalizing st ranges rest n with
  | ind len ih =>
    cases rest with
    | nil =>
      cases h
      have := hr.read [] hm
      rw [List.append_nil] at this
      exact .inr ⟨by simpa [readClassFrom] using this, rfl⟩
    | cons c rest =>
      have hout := hr.outside
      by_cases hcl : c = closeBracket ∧ st.first = false
      · obtain ⟨rfl, hfirst⟩ := hcl
        obtain ⟨rfl, rfl, hsep, hca⟩ := ok_of_close hfirst h
        refine hr.agrees_close hfirst false ?_ hsep hca fun t => by simp [gitClassFrom, hfirst]
        cases negated <;> simp [ClassState.close, hout]
      · obtain ⟨st', k, hco, rfl, h⟩ := ok_of_copyClassFrom hcl h
        by_cases hd : c = dash ∧ st.first = false
        · obtain ⟨rfl, hfirst⟩ := hd
          obtain ⟨ha, rfl⟩ := ClassState.copy_dash hout hfirst hco
          cases rest with
          | nil =>
            cases h
            refine .inr ⟨?_, rfl⟩
            rw [hr.read _ (by simp [hfirst])]
            simp [readClassFrom, hcl]
          | cons d rest =>
            by_cases hend : d = closeBracket
            · subst hend
              obtain ⟨rfl, rfl, hsep, hca⟩ := ok_of_close rfl h
              refine hr.agrees_close hfirst true ?_ hsep hca fun t => ?_
              · cases negated <;> simp [ClassState.close]
              · rw [gitClassFrom, if_neg (by simpa using hcl), gitStep_member (by decide)
                  (fun _ => .inr rfl) (fun h => absurd h (by decide)) List.mem_cons_self]
                simp [gitClassFrom]
            · obtain ⟨st'', k', hc', rfl, h⟩ := ok_of_copyClassFrom (by simp [hend]) h
              obtain ⟨hb, hle, last, cased, rfl, hcase⟩ := ClassState.copy_end hc'
              have hclosed : st.closedRange = false := by
                by_contra hc
                exact hend (by simpa using ha (by simpa using hc))
              obtain ⟨ranges', hr', hu⟩ := hr.range hfirst hclosed hend hle hcase
              have hlt : rest.length < len := by
                rw [← hlen, List.length_cons, List.length_cons]
                omega
              refine Agrees.cons (k := 2) (ih rest.length hlt hr' (by simp)
                (fun h0 => hnul (by simp [h0])) h rfl) (fun t r hgit => ?_) rfl
              have hlast := (hr.last hfirst hclosed).1
              simp only [ClassState.prev, hu, Bool.or_true, if_true] at hgit
              rw [gitClassFrom, if_neg (by simpa using hcl), show st.prev = st.last by
                simp [ClassState.prev, hfirst, hclosed], gitStep_range hlast hend hb]
              simp [gitClassFrom, hgit]
        · obtain ⟨hb, hp, cased, rfl, hcase⟩ := ClassState.copy_member hout hd hco
          have hne : c ≠ 0 := fun h0 => hnul (by simp [h0])
          have hr' := hr.member hm hd hcl hne hcase
          have hrest := ih rest.length (by simp [← hlen]) hr' (by simp)
            (fun h0 => hnul (by simp [h0])) h rfl
          refine hrest.cons (fun t r hgit => ?_) rfl
          rw [inRanges_self] at hgit
          rw [gitClassFrom, if_neg (by simpa using hcl), gitStep_member hb ?_ hp
            (closeBracket_mem_of_gitClassFrom hgit)]
          · simpa [ClassState.prev] using hgit
          · rintro rfl
            have hfirst : st.first = true := by simpa using hd
            exact .inl (by simp [ClassState.prev, hfirst])

end Simulation

/-- A class that is copied is closed, and globset reads the copy as git reads the
original, or it is unclosed and globset refuses it. -/
theorem copyClass_cases (posix : Bytes → UInt8 → Option Bool) {ignoreCase : Bool} {chars : Bytes}
    (hnul : 0 ∉ chars) {text : Bytes} {n : Nat} (h : copyClass ignoreCase chars = .ok (text, n)) :
    text = bracket :: text.tail ∧
      ((∃ c, (∀ more, readClass (text.tail ++ more) = some (c, text.tail.length)) ∧
          (ignoreCase = true → c.Widens) ∧
          ∀ t, gitClass posix t chars = some (c.holds false t, n)) ∨
        readClass text.tail = none ∧ n = chars.length) := by
  unfold copyClass at h
  split at h
  · next hneg =>
    obtain ⟨mark, rest, rfl⟩ : ∃ mark rest, chars = mark :: rest :=
      List.exists_cons_of_ne_nil (by rintro rfl; cases hneg)
    obtain ⟨⟨copied, k⟩, hc, h⟩ := ExceptInv.bind_eq_ok.mp h
    cases h
    have hr : Reading true ignoreCase ⟨true, false, false, 0, false, [mark]⟩ [] :=
      ⟨rfl, fun more _ => by
        rw [readClass, if_pos (show negates ([mark] ++ more) = true from hneg)]
        rfl, fun h => Bool.noConfusion h,
        fun _ _ _ _ _ => rfl⟩
    have ha : Agrees posix true ignoreCase _ [] rest copied k :=
      hr.agrees (by simp) (fun h => hnul (List.mem_cons_of_mem _ h)) hc
    refine ⟨rfl, ha.imp ?_ ?_⟩
    · rintro ⟨final, hre, hca, -, hgit⟩
      refine ⟨⟨true, final⟩, hre, fun hic _ => hca rfl hic, fun t => ?_⟩
      obtain ⟨m, hm, hf⟩ := hgit t
      have hm' : gitClassFrom posix t 0 true 0 false rest = some (m, k) := hm
      simp [gitClass, hneg, hm', ByteClass.holds, named, hf]
    · rintro ⟨hn, rfl⟩
      exact ⟨hn, rfl⟩
  · next hneg =>
    obtain ⟨⟨copied, k⟩, hc, h⟩ := ExceptInv.bind_eq_ok.mp h
    cases h
    have hr : Reading false ignoreCase ⟨true, false, false, 0, false, []⟩ [] :=
      ⟨rfl, fun more hmo => by simp [readClass, hmo], fun h => Bool.noConfusion h,
        fun h => Bool.noConfusion h⟩
    have ha : Agrees posix false ignoreCase _ [] chars copied n :=
      hr.agrees (by simpa using hneg) hnul hc
    refine ⟨rfl, ha.imp ?_ id⟩
    rintro ⟨final, hre, -, hsep, hgit⟩
    refine ⟨⟨false, final⟩, hre, fun _ h => Bool.noConfusion h, fun t => ?_⟩
    obtain ⟨m, hm, hf⟩ := hgit t
    have hm' : gitClassFrom posix t 0 true 0 false chars = some (m, n) := hm
    have hs : t = slash → m = false := by
      rintro rfl
      simpa [hsep rfl] using hf.symm
    simp only [gitClass, hneg, hm', ByteClass.holds, named, hf]
    cases m <;> simp_all

/-- Every class that is copied and that globset accepts matches, in globset's
reading of the copy, the bytes that git matches with the class as written. -/
theorem copyClass_reads_as_git (posix : Bytes → UInt8 → Option Bool) (ignoreCase : Bool)
    (chars : Bytes) (hnul : 0 ∉ chars) {text : Bytes} {n m : Nat} {c : ByteClass}
    (hcopy : copyClass ignoreCase chars = .ok (text, n))
    (haccept : readClass text.tail = some (c, m)) (t : UInt8) :
    gitClass posix t chars = some (c.holds false t, n) := by
  rcases (copyClass_cases posix hnul hcopy).2 with ⟨c', hr, -, hgit⟩ | ⟨hn, -⟩
  · have heq := hr []
    rw [List.append_nil, haccept] at heq
    cases heq
    exact hgit t
  · rw [hn] at haccept
    cases haccept

theorem copyClass_reads_as_git_negated :
    gitClass (fun _ _ => none) 97 (str "!0-9-]") = some (true, 6) :=
  copyClass_reads_as_git (fun _ _ => none) true (str "!0-9-]") (by decide)
    (show copyClass true (str "!0-9-]") = .ok (str "[!0-9/-]", 6) by decide)
    (show readClass (str "!0-9/-]") = some (⟨true, [(45, 45), (47, 47), (48, 57)]⟩, 7) by decide) 97

end OxPhp.Config
