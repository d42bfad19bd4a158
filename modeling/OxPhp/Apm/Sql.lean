import Mathlib.Data.List.Chain
import Mathlib.Data.List.Infix
import OxPhp.Lib.ByteStr

/-!
# The SQL obfuscator

`obfuscate` turns the text of a query into the `db.statement` attribute of a
span: literals become `?`, everything else is kept.  It knows strings and numbers
but neither comments nor backtick identifiers.  Statements that differ only in
what their string literals hold should be given the same text.
-/

namespace OxPhp.Apm

open ByteStr

abbrev quote : UInt8 := 39
abbrev doubleQuote : UInt8 := 34
abbrev backslash : UInt8 := 92
abbrev backtick : UInt8 := 96
abbrev minus : UInt8 := 45
abbrev underscore : UInt8 := 95

/-! ## The scan -/

/-- What follows a single-quoted literal, from behind its opening quote.  Where
anything follows, the byte before it is the closing quote. -/
def skipSingleQuoted : Bytes → Bytes
  | [] => []
  | c :: rest =>
    if c = backslash then
      -- `i += 2`, which may lead past the end
      match rest with
      | [] => []
      | _ :: rest => skipSingleQuoted rest
    else if c = quote then
      match rest with
      | [] => []
      | d :: rest => if d = quote then skipSingleQuoted rest else d :: rest
    else skipSingleQuoted rest

/-- What follows a double-quoted literal; a doubled quote is no escape here. -/
def skipDoubleQuoted : Bytes → Bytes
  | [] => []
  | c :: rest =>
    if c = backslash then
      match rest with
      | [] => []
      | _ :: rest => skipDoubleQuoted rest
    else if c = doubleQuote then rest
    else skipDoubleQuoted rest

def skipDigits : UInt8 → Bytes → UInt8 × Bytes
  | prev, [] => (prev, [])
  | prev, b :: rest => if isAsciiDigit b then skipDigits b rest else (prev, b :: rest)

def skipNumber (prev : UInt8) (bytes : Bytes) : UInt8 × Bytes :=
  match skipDigits prev bytes with
  | (last, []) => (last, [])
  | (last, b :: rest) =>
    if b = dot ∧ rest.head?.any isAsciiDigit then skipDigits b rest else (last, b :: rest)

/-- The bytes before a `-` that make it the sign of a number. -/
def isNegPrefix (b : UInt8) : Bool :=
  b ∈ [(32 : UInt8), 9, 10, 13, 40, 44, 61, 60, 62, 33]

def toChar (b : UInt8) : Char := Char.ofNat b.toNat

theorem skipSingleQuoted_suffix (bytes : Bytes) : skipSingleQuoted bytes <:+ bytes := by
  fun_induction skipSingleQuoted bytes <;> grind [List.suffix_cons, List.IsSuffix.trans]

theorem skipDoubleQuoted_suffix (bytes : Bytes) : skipDoubleQuoted bytes <:+ bytes := by
  fun_induction skipDoubleQuoted bytes <;> grind [List.suffix_cons, List.IsSuffix.trans]

theorem skipDigits_suffix (prev : UInt8) (bytes : Bytes) : (skipDigits prev bytes).2 <:+ bytes := by
  fun_induction skipDigits prev bytes with
  | case1 | case3 => exact List.suffix_rfl
  | case2 prev b rest _ ih => exact ih.trans (List.suffix_cons b rest)

theorem skipNumber_suffix (prev : UInt8) (bytes : Bytes) : (skipNumber prev bytes).2 <:+ bytes := by
  have hd := skipDigits_suffix prev bytes
  rw [skipNumber]
  split
  · exact List.nil_suffix
  · next last b rest heq =>
    rw [heq] at hd
    split
    · exact ((skipDigits_suffix b rest).trans (List.suffix_cons b rest)).trans hd
    · exact hd

/-- The loop, at a position with the byte before it and what is left. -/
def obfuscateFrom (prev : Option UInt8) : Bytes → List Char
  | [] => []
  | b :: rest =>
    if b = quote then '?' :: obfuscateFrom (some quote) (skipSingleQuoted rest)
    else if b = doubleQuote then '?' :: obfuscateFrom (some doubleQuote) (skipDoubleQuoted rest)
    else if b = minus ∧ rest.head?.any isAsciiDigit then
      if prev.all isNegPrefix then
        '?' :: obfuscateFrom (some (skipNumber b rest).1) (skipNumber b rest).2
      else toChar b :: obfuscateFrom (some b) rest
    else if isAsciiDigit b then
      -- a digit behind a letter is part of an identifier
      if prev.any fun p => isAsciiAlphanumeric p || p == underscore then
        toChar b :: obfuscateFrom (some b) rest
      else '?' :: obfuscateFrom (some (skipNumber b rest).1) (skipNumber b rest).2
    else toChar b :: obfuscateFrom (some b) rest
termination_by bytes => bytes.length
decreasing_by
  all_goals simp only [List.length_cons]
  · exact Nat.lt_succ_of_le (skipSingleQuoted_suffix rest).length_le
  · exact Nat.lt_succ_of_le (skipDoubleQuoted_suffix rest).length_le
  · exact Nat.lt_succ_of_le (skipNumber_suffix _ rest).length_le
  · exact Nat.lt_succ_self _
  · exact Nat.lt_succ_self _
  · exact Nat.lt_succ_of_le (skipNumber_suffix _ rest).length_le
  · exact Nat.lt_succ_self _

def obfuscate (sql : Bytes) : String := String.ofList (obfuscateFrom none sql)

example : obfuscate (str "name = 'it''s' AND id1 > -4.5") = "name = ? AND id1 > ?" := by
  decide +kernel

/-! ## Statements -/

/-- What may stand between the quotes of a literal: a quote only doubled or behind a
backslash, and no backslash at the end. -/
def isLiteralContent : Bytes → Bool
  | [] => true
  | c :: rest =>
    if c = backslash then
      match rest with
      | [] => false
      | _ :: rest => isLiteralContent rest
    else if c = quote then
      match rest with
      | [] => false
      | d :: rest => d == quote && isLiteralContent rest
    else isLiteralContent rest

/-- What may stand between the backticks of an identifier: a backtick only doubled. -/
def isBacktickName : Bytes → Bool
  | [] => true
  | c :: rest =>
    if c = backtick then
      match rest with
      | [] => false
      | d :: rest => d == backtick && isBacktickName rest
    else isBacktickName rest

inductive LineMark where
  | dashes
  | hash
  deriving DecidableEq

def LineMark.text : LineMark → Bytes
  | .dashes => str "--"
  | .hash => str "#"

/-- The parts of an SQL text.  Code holds keywords, plain identifiers, numbers,
operators and white space. -/
inductive Piece where
  | code (text : Bytes)
  | lineComment (mark : LineMark) (text : Bytes)
  | blockComment (text : Bytes)
  | backtickIdent (name : Bytes)
  | literal (content : Bytes)
  deriving DecidableEq

namespace Piece

def text : Piece → Bytes
  | .code text => text
  | .lineComment mark text => mark.text ++ text
  | .blockComment text => str "/*" ++ text ++ str "*/"
  | .backtickIdent name => backtick :: (name ++ [backtick])
  | .literal content => quote :: (content ++ [quote])

def WellFormed : Piece → Prop
  | .code text => text ≠ [] ∧ quote ∉ text ∧ doubleQuote ∉ text ∧ backtick ∉ text ∧
      ¬str "#" <:+: text ∧ ¬str "--" <:+: text ∧ ¬str "/*" <:+: text
  | .lineComment _ text => (10 : UInt8) ∉ text
  | .blockComment text => ¬str "*/" <:+: text
  | .backtickIdent name => isBacktickName name = true
  | .literal content => isLiteralContent content = true

instance : DecidablePred WellFormed
  | .code _ => inferInstanceAs (Decidable (_ ∧ _))
  | .lineComment _ _ => inferInstanceAs (Decidable (¬_))
  | .blockComment _ => inferInstanceAs (Decidable (¬_))
  | .backtickIdent _ => inferInstanceAs (Decidable (_ = _))
  | .literal _ => inferInstanceAs (Decidable (_ = _))

/-- Which piece may stand next to which: a line comment lasts to the end of its line,
and two neighbours of one kind would read as one. -/
def Apart : Piece → Piece → Prop
  | .lineComment _ _, q => ∃ text, q = .code (10 :: text)
  | .code _, .code _ => False
  | .backtickIdent _, .backtickIdent _ => False
  | .literal _, .literal _ => False
  | _, _ => True

def blank : Piece → Piece
  | .literal _ => .literal []
  | p => p

end Piece

def textOf (pieces : List Piece) : Bytes := pieces.flatMap Piece.text

/-- An SQL text, cut into its pieces. -/
structure Statement where
  pieces : List Piece
  wellFormed : ∀ p ∈ pieces, p.WellFormed
  apart : pieces.IsChain Piece.Apart

namespace Statement

def text (t : Statement) : Bytes := textOf t.pieces

/-- The two statements differ at most in what their string literals hold. -/
def SameOutsideLiterals (t t' : Statement) : Prop :=
  t'.pieces.map Piece.blank = t.pieces.map Piece.blank

end Statement

/-! ## Quotes outside literals -/

inductive Quotes where
  | outside
  | single
  | singleEscaped
  | double
  | doubleEscaped
  deriving DecidableEq

def Quotes.read : Quotes → UInt8 → Quotes
  | .outside, b => if b = quote then .single else if b = doubleQuote then .double else .outside
  | .single, b => if b = backslash then .singleEscaped else if b = quote then .outside else .single
  | .singleEscaped, _ => .single
  | .double, b =>
    if b = backslash then .doubleEscaped else if b = doubleQuote then .outside else .double
  | .doubleEscaped, _ => .double

def quotesAfter (q : Quotes) (bytes : Bytes) : Quotes := bytes.foldl Quotes.read q

theorem quotesAfter_append (q : Quotes) (l r : Bytes) :
    quotesAfter q (l ++ r) = quotesAfter (quotesAfter q l) r := List.foldl_append

/-- The quotes in what stands before a literal, from the literal before it on, pair up: its
opening quote is not taken for the end of a string. -/
def QuotesPairUp : Quotes → List Piece → Prop
  | _, [] => True
  | q, .literal _ :: rest => q.read quote = .single ∧ QuotesPairUp .outside rest
  | q, p :: rest => QuotesPairUp (quotesAfter q p.text) rest

/-! ## The scan as a reader of quotes -/

/-- A position of the scan inside the loops of `obfuscate`. -/
inductive Mode where
  | code (prev : Option UInt8)
  | single
  | singleEscaped
  | singleClosing
  | double
  | doubleEscaped

def Mode.quotes : Mode → Quotes
  | .code _ => .outside
  | .single => .single
  | .singleEscaped => .singleEscaped
  | .singleClosing => .outside
  | .double => .double
  | .doubleEscaped => .doubleEscaped

/-- What the scan still has to put out from a position inside its loops. -/
def resume : Mode → Bytes → List Char
  | .code prev, bytes => obfuscateFrom prev bytes
  | .single, bytes => obfuscateFrom (some quote) (skipSingleQuoted bytes)
  | .singleEscaped, bytes => obfuscateFrom (some quote) (skipSingleQuoted bytes.tail)
  | .singleClosing, bytes =>
    if bytes.head? = some quote then obfuscateFrom (some quote) (skipSingleQuoted bytes.tail)
    else obfuscateFrom (some quote) bytes
  | .double, bytes => obfuscateFrom (some doubleQuote) (skipDoubleQuoted bytes)
  | .doubleEscaped, bytes => obfuscateFrom (some doubleQuote) (skipDoubleQuoted bytes.tail)

@[simp] theorem resume_singleEscaped_cons (b : UInt8) (rest : Bytes) :
    resume .singleEscaped (b :: rest) = resume .single rest := rfl

@[simp] theorem resume_doubleEscaped_cons (b : UInt8) (rest : Bytes) :
    resume .doubleEscaped (b :: rest) = resume .double rest := rfl

variable {b : UInt8} {m : Mode} {gap : Bytes} {ps ps' : List Piece}

theorem resume_singleClosing_other (hb : b ≠ quote) (rest : Bytes) :
    resume .singleClosing (b :: rest) = resume (.code (some quote)) (b :: rest) := by
  simp [resume, hb]

theorem resume_single_backslash (rest : Bytes) :
    resume .single (backslash :: rest) = resume .singleEscaped rest := by
  cases rest <;> simp [resume, skipSingleQuoted]

theorem resume_single_quote (rest : Bytes) :
    resume .single (quote :: rest) = resume .singleClosing rest := by
  cases rest with
  | nil => rfl
  | cons d rest =>
    simp only [resume, List.head?_cons, List.tail_cons, Option.some.injEq]
    rw [skipSingleQuoted, if_neg (by decide), if_pos rfl]
    split <;> rfl

theorem resume_single_other (hs : b ≠ backslash) (hq : b ≠ quote)
    (rest : Bytes) : resume .single (b :: rest) = resume .single rest := by
  rw [resume, skipSingleQuoted.eq_def]
  dsimp only
  rw [if_neg hs, if_neg hq]
  rfl

theorem resume_double_backslash (rest : Bytes) :
    resume .double (backslash :: rest) = resume .doubleEscaped rest := by
  cases rest <;> simp [resume, skipDoubleQuoted]

theorem resume_double_quote (rest : Bytes) :
    resume .double (doubleQuote :: rest) = resume (.code (some doubleQuote)) rest := by
  simp only [resume]
  rw [skipDoubleQuoted.eq_def]
  dsimp only
  rw [if_neg (by decide), if_pos rfl]

theorem resume_double_other (hs : b ≠ backslash) (hq : b ≠ doubleQuote)
    (rest : Bytes) : resume .double (b :: rest) = resume .double rest := by
  rw [resume, skipDoubleQuoted.eq_def]
  dsimp only
  rw [if_neg hs, if_neg hq]
  rfl

theorem resume_code_quote (prev : Option UInt8) (rest : Bytes) :
    resume (.code prev) (quote :: rest) = '?' :: resume .single rest := by
  rw [resume, obfuscateFrom, if_pos rfl]
  rfl

theorem resume_code_doubleQuote (prev : Option UInt8) (rest : Bytes) :
    resume (.code prev) (doubleQuote :: rest) = '?' :: resume .double rest := by
  rw [resume, obfuscateFrom, if_neg (by decide), if_pos rfl]
  rfl

/-! ### Numbers -/

theorem skipDigits_append (prev : UInt8) (gap rest : Bytes) :
    skipDigits prev (gap ++ quote :: rest) =
      ((skipDigits prev gap).1, (skipDigits prev gap).2 ++ quote :: rest) := by
  induction gap generalizing prev with
  | nil => rfl
  | cons b gap ih =>
    simp only [List.cons_append, skipDigits]
    by_cases hd : isAsciiDigit b
    · rw [if_pos hd, if_pos hd, ih]
    · rw [if_neg hd, if_neg hd, List.cons_append]

theorem head?_append_quote_any (gap rest : Bytes) :
    (gap ++ quote :: rest).head?.any isAsciiDigit = gap.head?.any isAsciiDigit := by
  cases gap <;> rfl

theorem skipNumber_append (prev : UInt8) (gap rest : Bytes) :
    skipNumber prev (gap ++ quote :: rest) =
      ((skipNumber prev gap).1, (skipNumber prev gap).2 ++ quote :: rest) := by
  simp only [skipNumber, skipDigits_append]
  cases hd : skipDigits prev gap with
  | mk last left =>
    cases left with
    | nil => rfl
    | cons b left =>
      simp only [List.cons_append, head?_append_quote_any, skipDigits_append]
      split <;> rfl

theorem read_outside (hq : b ≠ quote) (hd : b ≠ doubleQuote) :
    Quotes.read .outside b = .outside := by
  simp [Quotes.read, hq, hd]

theorem quotesAfter_cons_outside (hq : b ≠ quote) (hd : b ≠ doubleQuote)
    (rest : Bytes) : quotesAfter .outside (b :: rest) = quotesAfter .outside rest := by
  rw [quotesAfter, List.foldl_cons, read_outside hq hd]
  rfl

theorem ne_of_isAsciiDigit {c : UInt8} (hb : isAsciiDigit b = true)
    (hc : isAsciiDigit c = false) : b ≠ c := by
  rintro rfl
  rw [hb] at hc
  cases hc

theorem quotesAfter_skipDigits (prev : UInt8) (gap : Bytes) :
    quotesAfter .outside (skipDigits prev gap).2 = quotesAfter .outside gap := by
  induction gap generalizing prev with
  | nil => rfl
  | cons b gap ih =>
    rw [skipDigits]
    split
    · next hd =>
      rw [ih, quotesAfter_cons_outside (ne_of_isAsciiDigit hd rfl)
        (ne_of_isAsciiDigit hd rfl)]
    · rfl

theorem quotesAfter_skipNumber (prev : UInt8) (gap : Bytes) :
    quotesAfter .outside (skipNumber prev gap).2 = quotesAfter .outside gap := by
  have hd := quotesAfter_skipDigits prev gap
  rw [← hd, skipNumber]
  cases skipDigits prev gap with
  | mk last left =>
    cases left with
    | nil => rfl
    | cons b left =>
      dsimp only
      split
      · next hp =>
        rw [quotesAfter_skipDigits, hp.1]
        exact (quotesAfter_cons_outside (by decide) (by decide) left).symm
      · rfl

/-! ### The text before a literal -/

/-- From a position `m` the scan gets through `gap`, whatever follows the next quote: its
output on the way and the position it arrives at are settled by `gap`. -/
def GetsThrough (m : Mode) (gap : Bytes) : Prop :=
  ∃ (out : List Char) (m' : Mode), m'.quotes = quotesAfter m.quotes gap ∧
    ∀ rest, resume m (gap ++ quote :: rest) = out ++ resume m' (quote :: rest)

theorem GetsThrough.nil (m : Mode) : GetsThrough m [] := ⟨[], m, rfl, fun _ => rfl⟩

theorem GetsThrough.turn {m' : Mode} {gap' : Bytes} (out : List Char)
    (h : GetsThrough m' gap') (hq : quotesAfter m'.quotes gap' = quotesAfter m.quotes gap)
    (ht : ∀ rest, resume m (gap ++ quote :: rest) =
      out ++ resume m' (gap' ++ quote :: rest)) : GetsThrough m gap := by
  obtain ⟨out', m'', hm'', hr⟩ := h
  refine ⟨out ++ out', m'', hm''.trans hq, fun rest => ?_⟩
  rw [ht, hr, List.append_assoc]

theorem getsThrough_single (ih : ∀ m, GetsThrough m gap) : GetsThrough .single (b :: gap) := by
  by_cases hs : b = backslash
  · subst hs
    exact .turn [] (ih .singleEscaped) rfl fun rest => resume_single_backslash _
  by_cases hq : b = quote
  · subst hq
    exact .turn [] (ih .singleClosing) rfl fun rest => resume_single_quote _
  refine .turn [] (ih .single) ?_ fun rest => resume_single_other hs hq _
  simp [quotesAfter, Mode.quotes, Quotes.read, hs, hq]

theorem getsThrough_double (ih : ∀ m, GetsThrough m gap) : GetsThrough .double (b :: gap) := by
  by_cases hs : b = backslash
  · subst hs
    exact .turn [] (ih .doubleEscaped) rfl fun rest => resume_double_backslash _
  by_cases hq : b = doubleQuote
  · subst hq
    exact .turn [] (ih (.code (some doubleQuote))) rfl fun rest => resume_double_quote _
  refine .turn [] (ih .double) ?_ fun rest => resume_double_other hs hq _
  simp [quotesAfter, Mode.quotes, Quotes.read, hs, hq]

theorem getsThrough_code (prev : Option UInt8)
    (ih : ∀ gap' : Bytes, gap'.length ≤ gap.length → ∀ m, GetsThrough m gap') :
    GetsThrough (.code prev) (b :: gap) := by
  by_cases hq : b = quote
  · subst hq
    exact .turn ['?'] (ih gap (Nat.le_refl _) .single) rfl fun rest =>
      resume_code_quote prev _
  by_cases hd : b = doubleQuote
  · subst hd
    exact .turn ['?'] (ih gap (Nat.le_refl _) .double) rfl fun rest =>
      resume_code_doubleQuote prev _
  -- the two ways on: `b` is put out, or `b` begins a number
  have hqu := quotesAfter_cons_outside hq hd gap
  have hk : GetsThrough (.code (some b)) gap := ih gap (Nat.le_refl _) _
  have hn : GetsThrough (.code (some (skipNumber b gap).1)) (skipNumber b gap).2 :=
    ih _ (skipNumber_suffix b gap).length_le _
  have hnu := (quotesAfter_skipNumber b gap).trans hqu.symm
  have hs : ∀ rest, resume (.code prev) (b :: gap ++ quote :: rest) =
      obfuscateFrom prev (b :: (gap ++ quote :: rest)) := fun _ => rfl
  simp only [obfuscateFrom, if_neg hq, if_neg hd, head?_append_quote_any,
    skipNumber_append] at hs
  split at hs
  · split at hs
    · exact .turn ['?'] hn hnu hs
    · exact .turn [toChar b] hk hqu.symm hs
  · split at hs
    · split at hs
      · exact .turn [toChar b] hk hqu.symm hs
      · exact .turn ['?'] hn hnu hs
    · exact .turn [toChar b] hk hqu.symm hs

theorem getsThrough (m : Mode) (gap : Bytes) : GetsThrough m gap := by
  -- by the length of the text, since a number is skipped in one turn
  induction hlength : gap.length using Nat.strong_induction_on generalizing m gap with
  | _ n ih =>
    cases gap with
    | nil => exact .nil m
    | cons b gap =>
      have ih' : ∀ gap' : Bytes, gap'.length ≤ gap.length → ∀ m, GetsThrough m gap' := by
        intro gap' hle m
        refine ih gap'.length ?_ m gap' rfl
        rw [← hlength, List.length_cons]
        exact Nat.lt_succ_of_le hle
      have hgap := ih' gap (Nat.le_refl _)
      cases m with
      | code prev => exact getsThrough_code prev ih'
      | single => exact getsThrough_single hgap
      | singleEscaped => exact .turn [] (hgap .single) rfl fun _ => rfl
      | singleClosing =>
        by_cases hq : b = quote
        · subst hq
          exact .turn [] (hgap .single) rfl fun _ => rfl
        · exact .turn [] (getsThrough_code (some quote) ih') rfl fun rest =>
            resume_singleClosing_other hq _
      | double => exact getsThrough_double hgap
      | doubleEscaped => exact .turn [] (hgap .double) rfl fun _ => rfl

/-! ## Literals -/

theorem resume_single_literal {content : Bytes} (h : isLiteralContent content = true)
    (rest : Bytes) : resume .single (content ++ quote :: rest) = resume .singleClosing rest := by
  fun_induction isLiteralContent content with
  | case1 => exact resume_single_quote rest
  | case2 => cases h
  | case3 d rest' ih => exact (resume_single_backslash _).trans (ih h)
  | case4 => cases h
  | case5 _ d rest' ih =>
    rw [Bool.and_eq_true, beq_iff_eq] at h
    obtain ⟨rfl, hr⟩ := h
    exact (resume_single_quote _).trans (ih hr)
  | case6 c rest' hs hq ih =>
    exact (resume_single_other hs hq _).trans (ih h)

/-- A literal whose opening quote is read as the start of a string, or from inside one,
is passed whatever it holds. -/
theorem resume_hides (hm : m.quotes.read quote = .single) :
    ∃ out : List Char, ∀ content, isLiteralContent content = true → ∀ rest,
      resume m (quote :: (content ++ quote :: rest)) = out ++ resume .singleClosing rest := by
  have ho : ∃ out : List Char, ∀ rest,
      resume m (quote :: rest) = out ++ resume .single rest := by
    cases m with
    | code prev => exact ⟨['?'], resume_code_quote prev⟩
    | singleEscaped | singleClosing => exact ⟨[], fun _ => rfl⟩
    | single => cases hm
    | double => cases hm
    | doubleEscaped => cases hm
  obtain ⟨out, ho⟩ := ho
  refine ⟨out, fun content hc rest => ?_⟩
  rw [ho, resume_single_literal hc]

theorem resume_code_letter (prev : Option UInt8) (hb : b = 97 ∨ b = 98) (rest : Bytes) :
    (resume (.code prev) (b :: rest)).head? = some (toChar b) := by
  rcases hb with rfl | rfl
  all_goals
    rw [resume, obfuscateFrom, if_neg (by decide), if_neg (by decide),
      if_neg (fun h => absurd h.1 (by decide)), if_neg (by decide)]
    rfl

theorem resume_leaks (hm : m.quotes.read quote ≠ .single) :
    ∃ content content' : Bytes, isLiteralContent content = true ∧
      isLiteralContent content' = true ∧ ∀ rest, resume m (quote :: (content ++ quote :: rest)) ≠
          resume m (quote :: (content' ++ quote :: rest)) := by
  have hd : ∀ (prev : Option UInt8) (rest : Bytes),
      resume (.code prev) (97 :: rest) ≠ resume (.code prev) (98 :: rest) := by
    intro prev rest heq
    have hh := congrArg List.head? heq
    rw [resume_code_letter prev (.inl rfl), resume_code_letter prev (.inr rfl)] at hh
    exact absurd hh (by decide)
  cases m with
  | code prev | singleEscaped | singleClosing => exact absurd rfl hm
  | single =>
    refine ⟨[97], [98], rfl, rfl, fun rest => ?_⟩
    rw [resume_single_quote, resume_single_quote]
    exact hd (some quote) _
  | double =>
    refine ⟨[doubleQuote, 97], [doubleQuote, 98], rfl, rfl, fun rest => ?_⟩
    rw [resume_double_other (by decide) (by decide), resume_double_other (by decide) (by decide)]
    simp only [List.cons_append, resume_double_quote]
    exact hd (some doubleQuote) _
  | doubleEscaped =>
    refine ⟨[doubleQuote, 97], [doubleQuote, 98], rfl, rfl, fun rest => ?_⟩
    simp only [List.cons_append, resume_doubleEscaped_cons, resume_double_quote]
    exact hd (some doubleQuote) _

/-! ## Statements that differ in their literals -/

namespace Piece

theorem eq_of_blank_eq {p p' : Piece} (hp : ∀ content, p ≠ .literal content)
    (h : p'.blank = p.blank) : p' = p := by
  cases p <;> cases p' <;> simp_all [blank]

theorem exists_of_blank_eq_literal {p : Piece} {content : Bytes}
    (h : p.blank = (Piece.literal content).blank) : ∃ content', p = .literal content' := by
  cases p <;> simp_all [blank]

theorem apart_blank (p q : Piece) : Apart p.blank q.blank ↔ Apart p q := by
  cases p <;> cases q <;> simp [Apart, blank]

end Piece

theorem quotesPairUp_cons {p : Piece} (hp : ∀ content, p ≠ .literal content) (q : Quotes)
    (rest : List Piece) :
    QuotesPairUp q (p :: rest) ↔ QuotesPairUp (quotesAfter q p.text) rest := by
  cases p with
  | literal content => exact absurd rfl (hp content)
  | _ => exact Iff.rfl

theorem textOf_literal (content : Bytes) (pieces : List Piece) :
    textOf (.literal content :: pieces) = quote :: (content ++ quote :: textOf pieces) := by
  simp [textOf, Piece.text]

theorem textOf_cons (p : Piece) (pieces : List Piece) :
    textOf (p :: pieces) = p.text ++ textOf pieces := List.flatMap_cons

/-- Other texts that can stand in the place of `ps`. -/
def Refills (ps ps' : List Piece) : Prop :=
  (∀ p ∈ ps', p.WellFormed) ∧ ps'.map Piece.blank = ps.map Piece.blank

theorem resume_refill (hps : ∀ p ∈ ps, p.WellFormed) (m : Mode) (gap : Bytes)
    (hq : QuotesPairUp (quotesAfter m.quotes gap) ps)
    (h : Refills ps ps') : resume m (gap ++ textOf ps') = resume m (gap ++ textOf ps) := by
  -- `gap` is what has been passed since the last literal
  induction ps generalizing m gap ps' with
  | nil => rw [List.map_eq_nil_iff.mp h.2]
  | cons p ps ih =>
    obtain ⟨p', ps'', rfl, hp, hr⟩ := List.map_eq_cons_iff.mp h.2
    have hwf := List.forall_mem_cons.mp hps
    have hwf' := List.forall_mem_cons.mp h.1
    by_cases hl : ∃ content, p = .literal content
    · obtain ⟨content, rfl⟩ := hl
      obtain ⟨content', rfl⟩ := Piece.exists_of_blank_eq_literal hp
      obtain ⟨ho, hq⟩ := hq
      obtain ⟨out, m', hm', ht⟩ := getsThrough m gap
      rw [← hm'] at ho
      obtain ⟨out', hh⟩ := resume_hides ho
      have ha : resume .singleClosing (textOf ps'') = resume .singleClosing (textOf ps) :=
        ih hwf.2 .singleClosing [] hq ⟨hwf'.2, hr⟩
      rw [textOf_literal, textOf_literal, ht, ht, hh _ hwf.1, hh _ hwf'.1,
        ha]
    · have hot := not_exists.mp hl
      obtain rfl := Piece.eq_of_blank_eq hot hp
      rw [quotesPairUp_cons hot, ← quotesAfter_append] at hq
      rw [textOf_cons, textOf_cons, ← List.append_assoc, ← List.append_assoc]
      exact ih hwf.2 m _ hq ⟨hwf'.2, hr⟩

theorem quotesPairUp_of_refill (hps : ∀ p ∈ ps, p.WellFormed) (m : Mode) (gap : Bytes)
    (h : ∀ ps', Refills ps ps' → resume m (gap ++ textOf ps') = resume m (gap ++ textOf ps)) :
    QuotesPairUp (quotesAfter m.quotes gap) ps := by
  induction ps generalizing m gap with
  | nil => trivial
  | cons p ps ih =>
    have hwf := List.forall_mem_cons.mp hps
    by_cases hl : ∃ content, p = .literal content
    · obtain ⟨content, rfl⟩ := hl
      obtain ⟨out, m', hm', ht⟩ := getsThrough m gap
      have ho : m'.quotes.read quote = .single := by
        by_contra hle
        obtain ⟨content₁, content₂, hc₁, hc₂, hd⟩ := resume_leaks hle
        have hs : ∀ content', isLiteralContent content' = true →
            resume m (gap ++ textOf (.literal content' :: ps)) =
              resume m (gap ++ textOf (.literal content :: ps)) :=
          fun content' hc' => h _ ⟨List.forall_mem_cons.mpr ⟨hc', hwf.2⟩, rfl⟩
        have heq := (hs content₁ hc₁).trans (hs content₂ hc₂).symm
        rw [textOf_literal, textOf_literal, ht, ht] at heq
        exact hd _ (List.append_cancel_left heq)
      refine ⟨by rw [← hm']; exact ho, ?_⟩
      obtain ⟨out', hh⟩ := resume_hides ho
      refine ih hwf.2 .singleClosing [] fun ps' hps' => ?_
      have heq := h (.literal content :: ps')
        ⟨List.forall_mem_cons.mpr ⟨hwf.1, hps'.1⟩, congrArg (_ :: ·) hps'.2⟩
      rw [textOf_literal, textOf_literal, ht, ht, hh _ hwf.1, hh _ hwf.1] at heq
      exact List.append_cancel_left (List.append_cancel_left heq)
    · have hot := not_exists.mp hl
      rw [quotesPairUp_cons hot, ← quotesAfter_append]
      refine ih hwf.2 m _ fun ps' hps' => ?_
      have heq := h (p :: ps')
        ⟨List.forall_mem_cons.mpr ⟨hwf.1, hps'.1⟩, congrArg (_ :: ·) hps'.2⟩
      rw [textOf_cons, textOf_cons, ← List.append_assoc, ← List.append_assoc] at heq
      exact heq

theorem isChain_apart_of_blank (h : ps'.map Piece.blank = ps.map Piece.blank)
    (hps : ps.IsChain Piece.Apart) : ps'.IsChain Piece.Apart := by
  have hb : ∀ l : List Piece,
      (l.map Piece.blank).IsChain Piece.Apart ↔ l.IsChain Piece.Apart := by
    intro l
    rw [List.isChain_map]
    simp only [Piece.apart_blank]
  rw [← hb, h, hb]
  exact hps

/-- **Literals are hidden.**  All statements that differ from `t` only in what their string
literals hold are given one text exactly if the quotes in the comments and identifiers
before each literal pair up. -/
theorem literals_hidden_iff (t : Statement) :
    (∀ t', t.SameOutsideLiterals t' → obfuscate t'.text = obfuscate t.text) ↔
      QuotesPairUp .outside t.pieces := by
  constructor
  · intro h
    refine quotesPairUp_of_refill t.wellFormed (.code none) [] fun ps' hps' => ?_
    exact String.ofList_injective (h ⟨ps', hps'.1, isChain_apart_of_blank hps'.2 t.apart⟩ hps'.2)
  · intro hq t' hs
    exact congrArg String.ofList
      (resume_refill t.wellFormed (.code none) [] hq ⟨t'.wellFormed, hs⟩)

def commented (comment content : Bytes) (hcomment : ¬str "*/" <:+: comment)
    (hcontent : isLiteralContent content = true) : Statement where
  pieces := [.blockComment comment, .literal content]
  wellFormed := List.forall_mem_cons.mpr ⟨hcomment, List.forall_mem_singleton.mpr hcontent⟩
  apart := .cons_cons trivial (.singleton _)

/-- With an apostrophe in a comment the literal behind it is put out, and the code after
it is taken for a string. -/
theorem apostrophe_in_comment_leaks :
    ∃ t t' : Statement, t.text = str "/*it's*/'secret'" ∧ t'.text = str "/*it's*/'public'" ∧
      t.SameOutsideLiterals t' ∧ obfuscate t.text = "/*it?secret?" ∧
      obfuscate t'.text = "/*it?public?" :=
  ⟨commented (str "it's") (str "secret") (by decide) (by decide),
    commented (str "it's") (str "public") (by decide) (by decide),
    by decide +kernel, by decide +kernel, rfl, by decide +kernel, by decide +kernel⟩

end OxPhp.Apm
