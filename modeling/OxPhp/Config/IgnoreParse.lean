import Mathlib.Data.List.Infix
import OxPhp.Config.IgnoreClass
import OxPhp.Config.IgnoreRules

/-!
# Compiling a rule file

`RuleSet::parse` of `config/ignore_rules.rs`.  An excluding rule is compiled
without regard to the case of ASCII letters, and meets a path with its letters
folded besides; both only add to what is excluded.
-/

namespace OxPhp.Config

open ByteStr Glob

def maxRules : Nat := 256
def maxPatternLen : Nat := 128

inductive RuleError
  | nul
  | tooManyRules
  | classify (message : Bytes)
  | tooLong (length : Nat)
  | startsWithWhitespace (pattern : Bytes)
  | endsInTab (pattern : Bytes)
  | doubleSlash (pattern : Bytes)
  | escapedSlash (pattern : Bytes)
  | namesNoPath (pattern : Bytes)
  | charClass (e : ClassError)
  | invalid (text : Bytes)

structure ParseError where
  line : Nat
  message : RuleError

/-! ## Translation -/

/-- Whether what follows these bytes follows an odd run of backslashes. -/
def isEscaped (before : Bytes) : Bool :=
  (before.reverse.takeWhile (· = backslash)).length % 2 = 1

/-- The loop of `trim_trailing_spaces`, on the text read backwards. -/
def dropSpaces : Bytes → Bytes
  | [] => []
  | b :: before => if b = 32 ∧ !isEscaped before.reverse then dropSpaces before else b :: before

def trimTrailingSpaces (s : Bytes) : Bytes := (dropSpaces s.reverse).reverse

/-- The loop of `translate`, the first `skip` bytes left out. -/
def translateChars (ignoreCase : Bool) : Nat → Bytes → Except ClassError Bytes
  | _, [] => .ok []
  | skip + 1, _ :: rest => translateChars ignoreCase skip rest
  | 0, c :: rest =>
    if c = backslash then
      match rest with
      | [] => .ok [c]
      | d :: _ => (translateChars ignoreCase 1 rest).map fun glob => c :: d :: glob
    else if c = 123 ∨ c = 125 then
      (translateChars ignoreCase 0 rest).map fun glob => backslash :: c :: glob
    else if c = bracket then do
      let (text, n) ← copyClass ignoreCase rest
      let glob ← translateChars ignoreCase n rest
      return text ++ glob
    else if c = star ∧ (str "**").isPrefixOf rest then
      (translateChars ignoreCase (rest.takeWhile (· = star)).length rest).map fun glob =>
        star :: star :: glob
    else (translateChars ignoreCase 0 rest).map (c :: ·)

/-- The pattern less the `/` that ends it. -/
def dirBody (pattern : Bytes) : Bytes :=
  if endsWithByte slash pattern then pattern.dropLast else pattern

/-- The body less the `/` that only anchors it. -/
def rootBody (body : Bytes) : Bytes :=
  if body.contains slash && startsWithByte slash body then body.tail else body

/-- The glob, and whether it is for directories only. -/
def translate (pattern : Bytes) (ignoreCase : Bool) : Except RuleError (Bytes × Bool) :=
  if startsWithByte 32 pattern || startsWithByte 9 pattern then
    .error (.startsWithWhitespace pattern)
  else if endsWithByte 9 pattern && !isEscaped pattern.dropLast then .error (.endsInTab pattern)
  else if str "//" <:+: pattern then .error (.doubleSlash pattern)
  else if (List.range pattern.length).any fun i =>
      pattern[i]? = some slash && isEscaped (pattern.take i) then
    .error (.escapedSlash pattern)
  else if rootBody (dirBody pattern) = [] then .error (.namesNoPath pattern)
  else do
    let glob ← (translateChars ignoreCase 0 (rootBody (dirBody pattern))).mapError .charClass
    return (if (dirBody pattern).contains slash then glob else str "**/" ++ glob,
      endsWithByte slash pattern)

/-! ## The file -/

section Parse

variable {A : Type}

def compile (text : Bytes) (ignoreCase : Bool) (glob : Bytes) : Except RuleError GlobSet :=
  match Glob.parse glob with
  | some ts => .ok (isMatch ignoreCase ts)
  | none => .error (.invalid text)

/-- The part of a glob that is compiled: less a leading `**/` when one name
follows it. -/
def isName (glob : Bytes) : Bool :=
  (str "**/").isPrefixOf glob && !(glob.drop 3).contains slash

def Rule.body (rule : Rule A) : Bytes := if rule.nameOnly then rule.glob.drop 3 else rule.glob

/-- The action of a rule, and how long a prefix of it was consumed. -/
abbrev Classify (A : Type) := Bool → Bytes → Except Bytes (A × Nat)

variable (classify : Classify A)

/-- The rule of one line, if it has one, with `count` rules before it. -/
def parseLine (line count : Nat) (raw : Bytes) : Except RuleError (Option (Rule A)) :=
  let text := trimTrailingSpaces (if endsWithByte 13 raw then raw.dropLast else raw)
  if text.contains 0 then .error .nul
  else if (trimMatches (fun b => b = 32 || b = 9) text).isEmpty || startsWithByte 35 text then
    .ok none
  else
    let negated := startsWithByte 33 text
    let rest := if negated then text.tail else text
    if count = maxRules then .error .tooManyRules
    else do
      let (action, n) ← (classify negated rest).mapError .classify
      let pattern := rest.drop n
      if maxPatternLen < pattern.length then .error (.tooLong pattern.length)
      else do
        let (glob, dirOnly) ← translate pattern !negated
        let body := if isName glob then glob.drop 3 else glob
        let matcher ← compile text (!negated) body
        let folded ← (if negated then none else fold body).mapM (compile text !negated)
        return some ⟨line, text, glob, action, negated, dirOnly, matcher, folded, isName glob⟩

def parseLines : Nat → List (Rule A) → List Bytes → Except ParseError (List (Rule A))
  | _, rules, [] => .ok rules
  | line, rules, raw :: rest => do
    let rule ← (parseLine classify line rules.length raw).mapError (⟨line, ·⟩)
    parseLines (line + 1) (rules ++ rule.toList) rest

def RuleSet.parse (src : Bytes) : Except ParseError (RuleSet A) :=
  let src := if [0xEF, 0xBB, 0xBF].isPrefixOf src then src.drop 3 else src
  (parseLines classify 1 [] (src.splitOn 10)).map (⟨·⟩)

end Parse

/-! ## What translation writes -/

theorem translateChars_all (ignoreCase : Bool) (chars : Bytes) :
    translateChars ignoreCase chars.length chars = .ok [] := by
  induction chars with
  | nil => rfl
  | cons c rest ih => exact ih

theorem widens_translateChars {skip : Nat} {chars glob : Bytes} (hnul : 0 ∉ chars)
    (h : translateChars true skip chars = .ok glob) : Widens glob := by
  induction chars generalizing skip glob with
  | nil =>
    cases skip <;> cases h <;> exact fun l hl => by cases hl; simp
  | cons c rest ih =>
    have ih {skip : Nat} {glob : Bytes} := @ih skip glob fun h0 => hnul (List.mem_cons_of_mem _ h0)
    cases skip with
    | succ skip => exact ih h
    | zero =>
      unfold translateChars at h
      split at h
      · next hb =>
        split at h
        · cases h
          intro l hl
          unfold items at hl
          simp [hb] at hl
        · obtain ⟨t, ht, rfl⟩ := ExceptInv.map_eq_ok.mp h
          exact hb ▸ (ih ht).escaped _
      · next hb =>
        split at h
        · obtain ⟨t, ht, rfl⟩ := ExceptInv.map_eq_ok.mp h
          exact (ih ht).escaped c
        · split at h
          · obtain ⟨⟨text, n⟩, hco, h⟩ := ExceptInv.bind_eq_ok.mp h
            obtain ⟨t, ht, h⟩ := ExceptInv.bind_eq_ok.mp h
            cases h
            obtain ⟨hte, ⟨c, hr, hc, -⟩ | ⟨hn, rfl⟩⟩ := copyClass_cases (fun _ _ => none)
              (fun h0 => hnul (List.mem_cons_of_mem _ h0)) hco
            · rw [hte]
              exact (ih ht).byteClass (hc rfl) (hr t)
            · -- an unclosed class takes the rest, and globset refuses it
              rw [translateChars_all] at ht
              cases ht
              intro l hl
              rw [hte, List.append_nil] at hl
              unfold items at hl
              simp [hn, bracket, backslash] at hl
          · next hc =>
            split at h
            · obtain ⟨t, ht, rfl⟩ := ExceptInv.map_eq_ok.mp h
              exact ((ih ht).cons (by decide) (by decide)).cons (by decide) (by decide)
            · obtain ⟨t, ht, rfl⟩ := ExceptInv.map_eq_ok.mp h
              exact (ih ht).cons hb hc

theorem mem_dirBody {pattern : Bytes} {b : UInt8} (h : b ∈ dirBody pattern) : b ∈ pattern := by
  unfold dirBody at h
  split at h
  · exact List.mem_of_mem_dropLast h
  · exact h

theorem mem_rootBody {body : Bytes} {b : UInt8} (h : b ∈ rootBody body) : b ∈ body := by
  unfold rootBody at h
  split at h
  · exact List.mem_of_mem_tail h
  · exact h

theorem widens_deep {t : Bytes} (ht : Widens t) : Widens (str "**/" ++ t) :=
  ((ht.cons (b := slash) (by decide) (by decide)).cons (b := star) (by decide)
    (by decide)).cons (b := star) (by decide) (by decide)

theorem widens_of_deep {t : Bytes} (h : Widens (str "**/" ++ t)) : Widens t := by
  intro l hl i hi
  have hitems : items 0 (str "**/" ++ t) = some (.star :: .star :: .literal slash :: l) := by
    show (((items 0 t).map (.literal slash :: ·)).map (.star :: ·)).map (.star :: ·) = _
    rw [hl]
    rfl
  exact h _ hitems i (by simp [hi])

theorem widens_translate {pattern glob : Bytes} {dirOnly : Bool} (hnul : 0 ∉ pattern)
    (h : translate pattern true = .ok (glob, dirOnly)) : Widens glob := by
  unfold translate at h
  iterate 5
    split at h
    · cases h
  obtain ⟨t, ht, h⟩ := ExceptInv.bind_eq_ok.mp h
  cases h
  have hw : Widens t := widens_translateChars (fun h0 => hnul (mem_dirBody (mem_rootBody h0)))
    (ExceptInv.mapError_eq_ok.mp ht)
  split
  · exact hw
  · exact widens_deep hw

/-! ## What the rules of a file match -/

section Exact

variable {A : Type}

/-- The rule's glob as it is written, letter by letter. -/
def Rule.exactMatcher (rule : Rule A) : GlobSet := fun s =>
  (Glob.parse rule.body).any fun ts => isMatch false ts s

/-- The last match by the globs as they are written, if it excludes. -/
def RuleSet.exactlyBy (set : RuleSet A) (path : Bytes) (isDir : Bool) : Option (Rule A) :=
  ((set.rules.reverse.filter fun rule => isDir || !rule.dirOnly).find?
    fun rule => rule.meets rule.exactMatcher (Target.new path)).filter (!·.negated)

/-- An ancestor or the path itself is excluded by the globs as they are written. -/
def RuleSet.ExcludesExactly (set : RuleSet A) (path : Bytes) (asFile : Bytes → Bool)
    (isDir : Bool) : Prop :=
  (∃ a ∈ ancestors path, (set.exactlyBy a true).isSome ∨
    asFile a ∧ (set.exactlyBy a false).isSome) ∨
  path ≠ [] ∧ (set.exactlyBy path isDir).isSome

/-- What compiling gives a rule: a re-including rule matches as it is written,
and an excluding one at least so. -/
structure Rule.Compiled (rule : Rule A) : Prop where
  widens : ∀ s, rule.exactMatcher s = true → rule.matcher s = true
  exact : rule.negated = true → rule.matcher = rule.exactMatcher

theorem compile_eq_ok {text glob : Bytes} {ignoreCase : Bool} {set : GlobSet}
    (h : compile text ignoreCase glob = .ok set) :
    ∃ ts, Glob.parse glob = some ts ∧ set = isMatch ignoreCase ts := by
  unfold compile at h
  split at h
  · next ts hts =>
    cases h
    exact ⟨ts, hts, rfl⟩
  · cases h

theorem isMatch_of_widens {glob s : Bytes} {ts : List Token} (hw : Widens glob)
    (hts : Glob.parse glob = some ts) (h : isMatch false ts s = true) :
    isMatch true ts s = true := by
  obtain ⟨l, hl, rfl⟩ := Option.map_eq_some_iff.mp hts
  exact isMatch_fold (widens_tokens (hw l hl) (by simp)) h

variable {classify : Classify A}

theorem compiled_of_parseLine {line count : Nat} {raw : Bytes} {rule : Rule A}
    (h : parseLine classify line count raw = .ok (some rule)) : rule.Compiled := by
  unfold parseLine at h
  extract_lets text negated rest at h
  split at h
  · cases h
  next hnul =>
  split at h
  · cases h
  split at h
  · cases h
  obtain ⟨⟨action, n⟩, -, h⟩ := ExceptInv.bind_eq_ok.mp h
  dsimp only at h
  split at h
  · cases h
  obtain ⟨⟨glob, dirOnly⟩, htr, h⟩ := ExceptInv.bind_eq_ok.mp h
  obtain ⟨matcher, hm, h⟩ := ExceptInv.bind_eq_ok.mp h
  obtain ⟨folded, -, h⟩ := ExceptInv.bind_eq_ok.mp h
  cases h
  obtain ⟨ts, hts, rfl⟩ := compile_eq_ok hm
  have he (s : Bytes) : Rule.exactMatcher ⟨line, text, glob, action, negated, dirOnly,
      isMatch (!negated) ts, folded, isName glob⟩ s = isMatch false ts s := by
    unfold Rule.exactMatcher Rule.body
    dsimp only
    rw [hts, Option.any_some]
  cases hneg : negated with
  | true =>
    rw [hneg] at he
    exact ⟨fun s hs => (he s).symm.trans hs, fun _ => funext fun s => (he s).symm⟩
  | false =>
    rw [hneg] at he htr
    refine ⟨fun s hs => ?_, fun h => by cases h⟩
    have hw : Widens glob := widens_translate (fun h0 => hnul ?_) htr
    · refine isMatch_of_widens ?_ hts (he s ▸ hs)
      split
      · next hn =>
        obtain ⟨t, rfl⟩ := List.isPrefixOf_iff_prefix.mp (Bool.and_eq_true_iff.mp hn).1
        exact widens_of_deep hw
      · exact hw
    · have hmem := List.mem_of_mem_drop h0
      simp only [rest, hneg] at hmem
      exact List.contains_iff_mem.mpr hmem

theorem compiled_of_parseLines {line : Nat} {rules rules' : List (Rule A)} {lines : List Bytes}
    (hr : ∀ rule ∈ rules, rule.Compiled) (h : parseLines classify line rules lines = .ok rules') :
    ∀ rule ∈ rules', rule.Compiled := by
  induction lines generalizing line rules with
  | nil =>
    cases h
    exact hr
  | cons raw lines ih =>
    obtain ⟨rule, hru, h⟩ := ExceptInv.bind_eq_ok.mp h
    refine ih (List.forall_mem_append.mpr ⟨hr, fun r hm => ?_⟩) h
    rw [Option.mem_toList.mp hm] at hru
    exact compiled_of_parseLine (ExceptInv.mapError_eq_ok.mp hru)

namespace Rule.Compiled

variable {rule : Rule A} {path : Target} {folded : Option Target}

theorem matchesTarget (hr : rule.Compiled) (h : rule.meets rule.exactMatcher path = true) :
    rule.matchesTarget path folded = true := by
  have hm : rule.meets rule.matcher path = true := hr.widens _ h
  unfold Rule.matchesTarget
  rw [if_pos hm]

theorem meets_exact (hr : rule.Compiled) (hn : rule.negated = true)
    (h : rule.matchesTarget path folded = true) : rule.meets rule.exactMatcher path = true := by
  unfold Rule.matchesTarget at h
  rw [hr.exact hn, hn] at h
  split at h
  · assumption
  · simp at h

end Rule.Compiled

/-- Matching more, and no more among the negated, a last match that excludes
still excludes. -/
theorem isSome_find?_filter {l : List (Rule A)} {p q : Rule A → Bool}
    (hpq : ∀ r ∈ l, p r = true → q r = true)
    (hqp : ∀ r ∈ l, r.negated = true → q r = true → p r = true)
    (h : ((l.find? p).filter (!·.negated)).isSome = true) :
    ((l.find? q).filter (!·.negated)).isSome = true := by
  induction l with
  | nil => exact h
  | cons r l ih =>
    have hp := hpq r List.mem_cons_self
    have hq := hqp r List.mem_cons_self
    have ih := ih (fun r hr => hpq r (List.mem_cons_of_mem _ hr))
      (fun r hr => hqp r (List.mem_cons_of_mem _ hr))
    cases hqr : q r <;> cases hpr : p r <;> cases hn : r.negated <;> simp_all

theorem isSome_excludedBy {set : RuleSet A} (hr : ∀ rule ∈ set.rules, rule.Compiled)
    {path : Bytes} {isDir : Bool} (h : (set.exactlyBy path isDir).isSome = true) :
    (set.excludedBy path isDir).isSome = true := by
  have hmem {r : Rule A} (hm : r ∈ set.rules.reverse.filter fun rule => isDir || !rule.dirOnly) :
      r.Compiled := hr r (List.mem_reverse.mp (List.mem_filter.mp hm).1)
  exact isSome_find?_filter (fun r hm => (hmem hm).matchesTarget)
    (fun r hm => (hmem hm).meets_exact) h

/-- Ignoring case and folding letters never let through a path that the rules
of an accepted file exclude as they are written. -/
theorem RuleSet.excluded_of_exactly {src : Bytes} {set : RuleSet A}
    (hparse : RuleSet.parse classify src = .ok set) (path : Bytes) (asFile : Bytes → Bool)
    (isDir : Bool) (h : set.ExcludesExactly path asFile isDir) :
    set.ancestorRules path asFile ≠ [] ∨ (set.matchedLast path isDir).isSome = true := by
  have hr : ∀ rule ∈ set.rules, rule.Compiled := by
    obtain ⟨rules, hru, rfl⟩ := ExceptInv.map_eq_ok.mp hparse
    exact compiled_of_parseLines (by simp) hru
  rcases h with ⟨a, ha, h⟩ | ⟨hne, h⟩
  · left
    intro hnil
    have hn := List.flatMap_eq_nil_iff.mp hnil a ha
    rw [List.append_eq_nil_iff] at hn
    rcases h with h | ⟨hf, h⟩
    all_goals
      have := isSome_excludedBy hr h
      simp_all
  · right
    unfold RuleSet.matchedLast
    have hru : set.rules ≠ [] := by
      intro hnil
      simp [RuleSet.exactlyBy, hnil] at h
    rw [if_neg (by simp [hne, hru])]
    exact isSome_excludedBy hr h

theorem RuleSet.excluded_of_exactly_lowercase : ∃ set : RuleSet Unit,
    RuleSet.parse (fun _ _ => .ok ((), 0)) (str "/*.[!0-9]\n!/a.B") = .ok set ∧
    set.ExcludesExactly (str "a.b") (fun _ => false) false ∧
    (set.ancestorRules (str "a.b") (fun _ => false) ≠ [] ∨
      (set.matchedLast (str "a.b") false).isSome = true) := by
  have hset : ∃ set : RuleSet Unit,
      RuleSet.parse (fun _ _ => .ok ((), 0)) (str "/*.[!0-9]\n!/a.B") = .ok set ∧
      set.ExcludesExactly (str "a.b") (fun _ => false) false :=
    ⟨_, rfl, Or.inr ⟨by decide, by decide +kernel⟩⟩
  obtain ⟨set, hp, he⟩ := hset
  exact ⟨set, hp, he, RuleSet.excluded_of_exactly hp _ _ _ he⟩

end Exact

end OxPhp.Config
