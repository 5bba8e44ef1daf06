import Stencil.Proofs.Expression.Lexemes

/-! # The classes of token as shapes

What a token of each class may cover is said here without counting characters (`Token.Fits`).  Only
a numeral asks what comes behind it.  A class applies at the front of a text if some beginning of
the text fits it there, and takes the longest such beginning (`Token.Takes`).

The reader measures the front of a text instead.  Its measure of a class is the length of what the
class takes, and zero where the class does not apply (`Token.measures_of_mem`); that a numeral is
measured to its end needs that a digit of any script belongs to a word.  So it finds what the first
class that applies takes (`Token.first?_eq_some_iff`), and nothing exactly where no class applies
(`Token.first?_eq_none_iff`).
-/

namespace Stencil

namespace Text

/-- Pieces between points give the text again. -/
theorem join_fields (separator : Char) (t : Text) : join [separator] (fields separator t) = t := by
  induction t with
  | nil => rfl
  | cons c rest ih =>
    obtain ⟨field, more, hfields⟩ := List.exists_cons_of_ne_nil (fields_ne_nil separator rest)
    rw [hfields, join_cons] at ih
    by_cases hc : c = separator
    · rw [fields, if_pos hc, hfields, join_cons, List.flatMap_cons, hc, List.nil_append,
        List.singleton_append, List.cons_append, ih]
    · rw [fields_cons hc hfields, join_cons, List.cons_append, ih]

/-- The digits of each script lie together among the letters and numbers. -/
theorem zeros_in_letterRanges : ∀ z ∈ zeros, ∃ r ∈ letterRanges, r.1 ≤ z ∧ z + 9 ≤ r.2 := by
  have htables : (zeros.all fun z =>
      letterRanges.any fun r => Nat.ble r.1 z && Nat.ble (z + 9) r.2) = true := by
    decide +kernel
  simpa using htables

/-- A digit of any script may stand in a word. -/
theorem isWord_of_isDecimal {c : Char} (h : isDecimal c = true) : isWord c = true := by
  rw [isDecimal, decimalValue?] at h
  rw [isWord]
  split at h
  · rename_i hascii
    have hhigh : c.toNat ≤ '9'.toNat := hascii.2
    have hsmall : c.toNat < 0x80 := Nat.lt_of_le_of_lt hhigh (by decide)
    simp [hsmall, hascii]
  · split at h
    · cases h
    · rename_i hsmall
      rw [if_neg hsmall]
      obtain ⟨z, hz⟩ := Option.isSome_iff_exists.mp (Option.isSome_map .. ▸ h)
      have hrow := List.find?_some hz
      obtain ⟨r, hr, hlow, hhigh⟩ := zeros_in_letterRanges z (List.mem_of_find?_eq_some hz)
      simp only [Bool.and_eq_true, decide_eq_true_eq] at hrow
      refine List.any_eq_true.mpr ⟨r, hr, ?_⟩
      simp only [Bool.and_eq_true, decide_eq_true_eq]
      omega

/-- The whitespace above U+007F. -/
def wideBlanks : List Nat :=
  [0x85, 0xA0, 0x1680, 0x2000, 0x2001, 0x2002, 0x2003, 0x2004, 0x2005, 0x2006, 0x2007, 0x2008,
   0x2009, 0x200A, 0x2028, 0x2029, 0x202F, 0x205F, 0x3000]

theorem inRanges_wideBlanks : ∀ n ∈ wideBlanks, inRanges letterRanges n = false := by
  decide +kernel

/-- No whitespace stands in a word. -/
theorem isBlank_of_isWord {c : Char} (h : isWord c = true) : isBlank c = false := by
  rw [isWord] at h
  split at h
  · have hrange : c.toNat = 0x5F ∨ 0x30 ≤ c.toNat ∧ c.toNat ≤ 0x7A := by
      rcases Bool.or_eq_true_iff.mp h with hname | hdigit
      · have hbounds := toNat_of_startsName hname
        omega
      · simp only [Bool.and_eq_true, decide_eq_true_eq] at hdigit
        have hlow : '0'.toNat ≤ c.toNat := hdigit.1
        have hhigh : c.toNat ≤ '9'.toNat := hdigit.2
        have hbounds : '0'.toNat = 0x30 ∧ '9'.toNat = 0x39 := ⟨rfl, rfl⟩
        omega
    simp only [isBlank, Bool.or_eq_false_iff, Bool.and_eq_false_iff, decide_eq_false_iff_not,
      beq_eq_false_iff_ne]
    omega
  · rename_i hsmall
    by_contra hblank
    have hmem : c.toNat ∈ wideBlanks := by
      simp only [isBlank, Bool.not_eq_false, Bool.or_eq_true, Bool.and_eq_true, decide_eq_true_eq,
        beq_iff_eq] at hblank
      simp only [wideBlanks, List.mem_cons, List.not_mem_nil, or_false]
      omega
    exact absurd (h.symm.trans (inRanges_wideBlanks _ hmem)) Bool.noConfusion

end Text

namespace Token
open Text

/-! ## Shapes -/

/-- What may stand between two quotes: each character but the quote and the backslash as it is, and
any but the line feed behind a backslash. -/
inductive Quotable (quote : Char) : Text → Prop
  | nil : Quotable quote []
  | plain {c : Char} {rest : Text} (hquote : c ≠ quote) (hbackslash : c ≠ '\\')
      (hrest : Quotable quote rest) : Quotable quote (c :: rest)
  | escaped {c : Char} {rest : Text} (hfeed : c ≠ '\n') (hrest : Quotable quote rest) :
      Quotable quote ('\\' :: c :: rest)

/-- The text covers what it may as a token of this class where the second text follows it. -/
inductive Fits : Kind → Text → Text → Prop
  | text {quote : Char} {inner after : Text} (hquote : IsQuote quote)
      (hinner : Quotable quote inner) : Fits .text (quote :: (inner ++ [quote])) after
  /-- A numeral does not run on into a word or a point. -/
  | number {minus digits fraction after : Text} (hminus : minus = [] ∨ minus = ['-'])
      (hdigits : IsDigits digits)
      (hfraction : fraction = [] ∨ ∃ decimals, IsDigits decimals ∧ fraction = '.' :: decimals)
      (hends : ∀ c ∈ after.head?, isWord c = false ∧ c ≠ '.') :
      Fits .number (minus ++ digits ++ fraction) after
  | comparison (c : Comparison) {after : Text} : Fits .comparison c.sign after
  | parenthesis {c : Char} {after : Text} (hc : c = '(' ∨ c = ')') : Fits .parenthesis [c] after
  | path {dollar head after : Text} {steps : List Text} (hdollar : dollar = [] ∨ dollar = ['$'])
      (hhead : IsName head) (hsteps : ∀ step ∈ steps, IsWord step) :
      Fits .path (dollar ++ join ['.'] (head :: steps)) after

/-- No class has a lexeme that is empty or begins with whitespace. -/
theorem Fits.visible {kind : Kind} {lexeme after : Text} (h : Fits kind lexeme after) :
    ∃ c rest, lexeme = c :: rest ∧ isBlank c = false := by
  cases h with
  | text hquote hinner =>
    refine ⟨_, _, rfl, ?_⟩
    rcases hquote with rfl | rfl
    · decide
    · decide
  | @number minus digits fraction _ hminus hdigits hfraction hends =>
    obtain ⟨c, rest, rfl⟩ := List.exists_cons_of_ne_nil hdigits.1
    rcases hminus with rfl | rfl
    · exact ⟨c, rest ++ fraction, rfl,
        isBlank_of_isWord (isWord_of_isDecimal (hdigits.2 c List.mem_cons_self))⟩
    · exact ⟨'-', c :: (rest ++ fraction), rfl, by decide⟩
  | comparison c =>
    cases c with
    | equal | unequal | lessOrEqual | greaterOrEqual | less | greater =>
      exact ⟨_, _, rfl, by decide⟩
  | parenthesis hc =>
    refine ⟨_, _, rfl, ?_⟩
    rcases hc with rfl | rfl
    · decide
    · decide
  | @path dollar head _ steps hdollar hhead hsteps =>
    obtain ⟨c, rest, rfl, hc, -⟩ := hhead
    rw [join_cons]
    rcases hdollar with rfl | rfl
    · exact ⟨c, rest ++ steps.flatMap (['.'] ++ ·), rfl,
        isBlank_of_isWord (isWord_of_startsName hc)⟩
    · exact ⟨'$', c :: (rest ++ steps.flatMap (['.'] ++ ·)), rfl, by decide⟩

/-- A class of token applies at the front of a text. -/
def Applies (kind : Kind) (t : Text) : Prop :=
  ∃ lexeme after, t = lexeme ++ after ∧ Fits kind lexeme after

/-- What a class takes at the front of a text: the longest beginning that fits. -/
structure Takes (kind : Kind) (t lexeme : Text) : Prop where
  fits : ∃ after, t = lexeme ++ after ∧ Fits kind lexeme after
  longest : ∀ other after, t = other ++ after → Fits kind other after →
    other.length ≤ lexeme.length

theorem Takes.applies {kind : Kind} {t lexeme : Text} (h : Takes kind t lexeme) :
    Applies kind t := ⟨lexeme, h.fits⟩

/-- A class takes one beginning of a text. -/
theorem Takes.unique {kind : Kind} {t a b : Text} (ha : Takes kind t a) (hb : Takes kind t b) :
    a = b := by
  obtain ⟨aftera, ht, hfita⟩ := ha.fits
  obtain ⟨afterb, ht', hfitb⟩ := hb.fits
  have hlength : a.length = b.length :=
    Nat.le_antisymm (hb.longest a aftera ht hfita) (ha.longest b afterb ht' hfitb)
  exact (List.append_inj (ht.symm.trans ht') hlength).1

/-- The order in which the classes are tried. -/
def order : List Kind := [.text, .number, .comparison, .parenthesis, .path]

/-- What the first class that applies takes at the front of a text. -/
structure Leads (t : Text) (kind : Kind) (lexeme : Text) : Prop where
  takes : Takes kind t lexeme
  first : ∃ front back, order = front ++ kind :: back ∧ ∀ earlier ∈ front, ¬ Applies earlier t

/-! ## Measures -/

/-- The length is that of what the class takes, and zero where it does not apply. -/
structure Measures (kind : Kind) (length : Text → Nat) : Prop where
  fits : ∀ t, length t ≠ 0 → ∃ lexeme after, t = lexeme ++ after ∧ lexeme.length = length t ∧
    Fits kind lexeme after
  bound : ∀ lexeme after, Fits kind lexeme after → lexeme.length ≤ length (lexeme ++ after)

variable {kind : Kind} {length : Text → Nat} {t : Text}

theorem Measures.eq_zero_iff (h : Measures kind length) : length t = 0 ↔ ¬ Applies kind t := by
  constructor
  · rintro hzero ⟨lexeme, after, rfl, hfit⟩
    obtain ⟨c, rest, rfl, -⟩ := hfit.visible
    have hle := h.bound _ _ hfit
    rw [hzero, List.length_cons] at hle
    exact absurd hle (Nat.not_succ_le_zero _)
  · intro hnone
    by_contra hne
    obtain ⟨lexeme, after, ht, -, hfit⟩ := h.fits t hne
    exact hnone ⟨lexeme, after, ht, hfit⟩

/-- Where a class applies, it takes as much as it measures. -/
theorem Measures.exists_takes (h : Measures kind length) (hne : length t ≠ 0) :
    ∃ lexeme, Takes kind t lexeme ∧ lexeme.length = length t := by
  obtain ⟨lexeme, after, ht, hlength, hfit⟩ := h.fits t hne
  refine ⟨lexeme, ⟨⟨after, ht, hfit⟩, fun other after' ht' hfit' => ?_⟩, hlength⟩
  rw [hlength, ht']
  exact h.bound other after' hfit'

/-! ## Quoted literals -/

/-- Where a closing quote is found, what stands before it may be quoted. -/
theorem quotable_of_closing? {quote : Char} {t : Text} {n : Nat} (h : closing? quote t = some n) :
    ∃ inner after, t = inner ++ [quote] ++ after ∧ Quotable quote inner ∧
      n = inner.length + 1 := by
  fun_induction closing? quote t generalizing n with
  | case1 => cases h
  | case2 => cases h
  | case3 => cases h
  | case4 c rest hfeed ih =>
    obtain ⟨m, hm, rfl⟩ := Option.map_eq_some_iff.mp h
    obtain ⟨inner, after, rfl, hinner, rfl⟩ := ih hm
    exact ⟨'\\' :: c :: inner, after, rfl, .escaped hfeed hinner, rfl⟩
  | case5 rest hsingle hescape =>
    obtain rfl := Option.some.inj h
    exact ⟨[], rest, rfl, .nil, rfl⟩
  | case6 c rest hsingle hescape hne ih =>
    have hc : c ≠ '\\' := by
      rintro rfl
      cases rest with
      | nil => exact hsingle rfl rfl
      | cons c rest => exact hescape c rest rfl rfl
    obtain ⟨m, hm, rfl⟩ := Option.map_eq_some_iff.mp h
    obtain ⟨inner, after, rfl, hinner, rfl⟩ := ih hm
    exact ⟨c :: inner, after, rfl, .plain hne hc hinner, rfl⟩

/-- What may be quoted does not close the literal. -/
theorem Quotable.closing? {quote : Char} (hquote : quote ≠ '\\') {inner : Text}
    (h : Quotable quote inner) (after : Text) :
    closing? quote (inner ++ [quote] ++ after) = some (inner.length + 1) := by
  induction h with
  | nil => rw [List.nil_append, List.singleton_append, closing?_cons hquote, if_pos rfl]; rfl
  | plain hne hbackslash hrest ih =>
    rw [List.cons_append, List.cons_append, closing?_cons hbackslash, if_neg hne, ih]
    rfl
  | escaped hfeed hrest ih =>
    rw [List.cons_append, List.cons_append, List.cons_append, List.cons_append, Token.closing?,
      if_neg hfeed, ih]
    rfl

theorem isQuote_iff {c : Char} : (c = '"' || c = '\'') = true ↔ IsQuote c := by
  rw [Bool.or_eq_true, decide_eq_true_eq, decide_eq_true_eq, IsQuote, or_comm]

theorem measures_text : Measures .text literalLength := by
  constructor
  · intro t hne
    unfold literalLength at hne ⊢
    split at hne
    · rename_i c rest
      split at hne
      · rename_i hstarts
        have hquote := isQuote_iff.mp hstarts
        cases hclosing : closing? c rest with
        | none => simp [hclosing] at hne
        | some n =>
          obtain ⟨inner, after, rfl, hinner, rfl⟩ := quotable_of_closing? hclosing
          refine ⟨c :: (inner ++ [c]), after, rfl, ?_, .text hquote hinner⟩
          simp [hstarts]
      · exact absurd rfl hne
    · exact absurd rfl hne
  · rintro _ after ⟨hquote, hinner⟩
    rename_i quote inner
    have hbackslash : quote ≠ '\\' := by
      rcases hquote with rfl | rfl
      · decide
      · decide
    rw [List.cons_append, literalLength, if_pos (isQuote_iff.mpr hquote),
      hinner.closing? hbackslash]
    simp

/-! ## Numerals -/

/-- What a numeral does not run on into. -/
theorem runsOn_eq_false_iff {t : Text} :
    runsOn t = false ↔ ∀ c ∈ t.head?, isWord c = false ∧ c ≠ '.' := by
  cases t with
  | nil => simp [runsOn]
  | cons c rest => simp [runsOn]

/-- Digits that do not run on into a word are counted to their end. -/
theorem isDecimal_of_runsOn {t : Text} (h : runsOn t = false) :
    ∀ c ∈ t.head?, isDecimal c = false := fun c hc =>
  Bool.eq_false_iff.mpr fun hdecimal =>
    absurd ((runsOn_eq_false_iff.mp h c hc).1.symm.trans (isWord_of_isDecimal hdecimal))
      Bool.noConfusion

/-- The digits behind a point are counted to their end. -/
theorem fractionLength_append {fraction after : Text}
    (h : fraction = [] ∨ ∃ decimals, IsDigits decimals ∧ fraction = '.' :: decimals)
    (hends : runsOn after = false) : fractionLength (fraction ++ after) = fraction.length := by
  rcases h with rfl | ⟨decimals, ⟨hne, hdecimals⟩, rfl⟩
  · cases after with
    | nil => rfl
    | cons c rest => simp [fractionLength, (runsOn_eq_false_iff.mp hends c rfl).2]
  · rw [List.cons_append, fractionLength,
      run_isDecimal_append hdecimals (isDecimal_of_runsOn hends)]
    cases decimals with
    | nil => exact absurd rfl hne
    | cons d decimals => rfl

theorem fractionLength_le (t : Text) : fractionLength t ≤ t.length := by
  unfold fractionLength
  split
  · rename_i rest
    have hrun : run isDecimal rest ≤ rest.length := (List.takeWhile_prefix _).length_le
    split
    · exact Nat.zero_le _
    · rename_i n hn
      rw [hn] at hrun
      exact Nat.succ_le_succ hrun
  · exact Nat.zero_le _

/-- A numeral is measured to its end. -/
theorem Fits.numberLength_eq {lexeme after : Text} (h : Fits .number lexeme after) :
    numberLength (lexeme ++ after) = lexeme.length := by
  cases h with
  | number hminus hdigits hfraction hends =>
    have hruns := runsOn_eq_false_iff.mpr hends
    refine numberLength_append hminus hdigits.1 hdigits.2 ?_
      (fractionLength_append hfraction hruns) hruns
    -- behind the digits stands a point, or what follows the numeral
    rcases hfraction with rfl | ⟨decimals, -, rfl⟩
    · exact isDecimal_of_runsOn hruns
    · exact fun c hc => Option.some.inj hc ▸ by decide

theorem measures_number : Measures .number numberLength := by
  constructor
  · intro t hne
    obtain ⟨hwhole, hsum, hends⟩ := numberLength_parts hne
    have hfits := Fits.number (minus_take t) (isDigits_take_run hwhole)
      (fraction_take (t.drop (minusLength t + run isDecimal (t.drop (minusLength t)))))
      (runsOn_eq_false_iff.mp hends)
    rw [← List.take_add, ← List.take_add, ← hsum] at hfits
    have hle : numberLength t ≤ t.length := by
      have hrun : run isDecimal (t.drop (minusLength t)) ≤ (t.drop (minusLength t)).length :=
        (List.takeWhile_prefix _).length_le
      have hfraction := fractionLength_le
        (t.drop (minusLength t + run isDecimal (t.drop (minusLength t))))
      rw [List.length_drop] at hrun hfraction
      omega
    exact ⟨_, _, (List.take_append_drop ..).symm, List.length_take_of_le hle, hfits⟩
  · exact fun lexeme after h => Nat.le_of_eq h.numberLength_eq.symm

/-! ## Signs -/

theorem measures_comparison : Measures .comparison comparisonLength := by
  constructor
  · intro t hne
    unfold comparisonLength at hne ⊢
    split at hne
    · rename_i c hfind
      have hsign : c.sign.isPrefixOf t = true := by
        simpa using List.find?_some hfind
      obtain ⟨after, hafter⟩ := List.isPrefixOf_iff_prefix.mp hsign
      exact ⟨c.sign, after, hafter.symm, rfl, .comparison c⟩
    · exact absurd rfl hne
  · intro lexeme after h
    cases h with
    | comparison c =>
      cases c with
      | equal | unequal | lessOrEqual | greaterOrEqual => exact Nat.le_refl _
      | less | greater =>
        -- the longer sign that begins alike may be found instead
        cases after with
        | nil => exact Nat.le_refl _
        | cons d rest =>
          by_cases hd : d = '='
          · subst hd
            exact Nat.le_succ 1
          · simp [comparisonLength, Comparison.all, Comparison.sign, List.isPrefixOf, Ne.symm hd]

theorem measures_parenthesis : Measures .parenthesis parenthesisLength := by
  constructor
  · intro t hne
    unfold parenthesisLength at hne ⊢
    split at hne
    · rename_i c rest
      split at hne
      · rename_i hc
        have hsign : c = '(' ∨ c = ')' := by simpa using hc
        exact ⟨[c], rest, rfl, by simp [hsign], .parenthesis hsign⟩
      · exact absurd rfl hne
    · exact absurd rfl hne
  · rintro _ after ⟨⟩
    rename_i c hc
    simp [parenthesisLength, hc]

/-! ## Paths -/

theorem dollar_take (t : Text) :
    t.take (dollarLength t) = [] ∨ t.take (dollarLength t) = ['$'] := by
  unfold dollarLength
  split
  · exact Or.inr rfl
  · exact Or.inl List.take_zero

theorem pathTail_le (t : Text) : pathTail t ≤ t.length := by
  fun_induction pathTail t with
  | case1 => exact Nat.le_refl _
  | case2 c rest hc ih => exact Nat.succ_le_succ ih
  | case3 d rest hd hpoint ih => exact Nat.succ_le_succ ih
  | case4 | case5 | case6 => exact Nat.zero_le _

theorem pathLength_le (t : Text) : pathLength t ≤ t.length := by
  unfold pathLength
  split
  · rename_i c rest hdrop
    have htail := pathTail_le rest
    have hlength := congrArg List.length hdrop
    rw [List.length_drop, List.length_cons] at hlength
    split
    · omega
    · exact Nat.zero_le _
  · exact Nat.zero_le _

theorem measures_path : Measures .path pathLength := by
  constructor
  · intro t hne
    obtain ⟨head, steps, hfields, hhead, hsteps⟩ := fields_take_pathLength hne
    have hfits : Fits .path (_ ++ join ['.'] (head :: steps)) (t.drop (pathLength t)) :=
      .path (dollar_take (t.take (pathLength t))) hhead hsteps
    rw [← hfields, join_fields, List.take_append_drop] at hfits
    exact ⟨_, _, (List.take_append_drop ..).symm, List.length_take_of_le (pathLength_le t), hfits⟩
  · intro lexeme after h
    cases h with
    | path hdollar hhead hsteps =>
      obtain ⟨hplain, hmarked⟩ := pathLength_path hhead hsteps after
      rcases hdollar with rfl | rfl
      · exact (Nat.le_add_right _ _).trans_eq hplain.symm
      · exact (Nat.le_add_right _ _).trans_eq hmarked.symm

/-! ## The first class that applies -/

/-- **The reader measures what the classes take.** -/
theorem measures_of_mem (h : (kind, length) ∈ classes) : Measures kind length := by
  simp only [classes, List.mem_cons, Prod.mk.injEq, List.not_mem_nil, or_false] at h
  rcases h with ⟨rfl, rfl⟩ | ⟨rfl, rfl⟩ | ⟨rfl, rfl⟩ | ⟨rfl, rfl⟩ | ⟨rfl, rfl⟩
  · exact measures_text
  · exact measures_number
  · exact measures_comparison
  · exact measures_parenthesis
  · exact measures_path

theorem map_classes : classes.map Prod.fst = order := rfl

/-- **Nothing is found exactly where no class applies.** -/
theorem first?_eq_none_iff : first? t = none ↔ ∀ kind ∈ order, ¬ Applies kind t := by
  rw [first?, List.findSome?_eq_none_iff, ← map_classes, List.forall_mem_map]
  refine forall₂_congr fun entry hentry => ?_
  rw [← (measures_of_mem hentry).eq_zero_iff]
  simp

/-- **What is found is what the first class that applies takes.** -/
theorem first?_eq_some_iff {n : Nat} :
    first? t = some (kind, n) ↔ ∃ lexeme, Leads t kind lexeme ∧ lexeme.length = n := by
  rw [first?, List.findSome?_eq_some_iff]
  constructor
  · rintro ⟨front, ⟨found, length⟩, back, hclasses, hfound, hfront⟩
    split at hfound
    · cases hfound
    · rename_i hne
      obtain ⟨rfl, rfl⟩ := Prod.mk.inj (Option.some.inj hfound)
      have hmem : ∀ entry ∈ front ++ (found, length) :: back, entry ∈ classes :=
        fun entry hentry => hclasses ▸ hentry
      obtain ⟨lexeme, htakes, hlength⟩ :=
        (measures_of_mem (hmem _ List.mem_append_cons_self)).exists_takes hne
      refine ⟨lexeme, ⟨htakes, front.map Prod.fst, back.map Prod.fst, ?_, ?_⟩, hlength⟩
      · rw [← map_classes, hclasses, List.map_append, List.map_cons]
      · refine List.forall_mem_map.mpr fun entry hentry => ?_
        rw [← (measures_of_mem (hmem entry (List.mem_append_left _ hentry))).eq_zero_iff]
        simpa using hfront entry hentry
  · rintro ⟨lexeme, ⟨htakes, front, back, horder, hfront⟩, rfl⟩
    rw [← map_classes, List.map_eq_append_iff] at horder
    obtain ⟨front, tail, hclasses, rfl, htail⟩ := horder
    obtain ⟨⟨found, length⟩, back, rfl, rfl, rfl⟩ := List.map_eq_cons_iff.mp htail
    have hmem : ∀ entry ∈ front ++ (found, length) :: back, entry ∈ classes :=
      fun entry hentry => hclasses ▸ hentry
    have hmeasures := measures_of_mem (hmem _ List.mem_append_cons_self)
    have hne : length t ≠ 0 := fun hzero => hmeasures.eq_zero_iff.mp hzero htakes.applies
    obtain ⟨other, hother, hlength⟩ := hmeasures.exists_takes hne
    refine ⟨front, (found, length), back, hclasses, ?_, fun entry hentry => ?_⟩
    · rw [htakes.unique hother, hlength, if_neg hne]
    · have hnone := hfront entry.1 (List.mem_map_of_mem hentry)
      rw [← (measures_of_mem (hmem entry (List.mem_append_left _ hentry))).eq_zero_iff] at hnone
      rw [if_pos hnone]

end Token
end Stencil
