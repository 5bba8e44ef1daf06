import Stencil.Proofs.Expression.Acceptance
import Stencil.Proofs.Text.Quoting

/-! # Lexemes are cut off as they are

Where a written leaf, keyword or sign is followed by a space, a closing parenthesis or nothing
(`Token.Ends`), the reader cuts off exactly what was written (`Token.Lexeme`): the classes of token
exclude each other by their first character, and none of them goes on over a space or a closing
parenthesis.  So a text can be cut one lexeme at a time (`Token.scanFrom_lexeme`), whatever follows.

A path is the one lexeme with inner structure.  It is a name and further words, with a point before
each (`Token.pathLength_path`), and taking it apart at the points gives them back
(`Text.fields_join`); and the path at the front of a text has no other shape
(`Token.fields_take_pathLength`).
-/

namespace Stencil

namespace Text

/-! ## Pieces between points -/

theorem fields_ne_nil (separator : Char) (t : Text) : fields separator t ≠ [] := by
  cases t with
  | nil => exact List.cons_ne_nil _ _
  | cons c rest =>
    rw [fields]
    split
    · exact List.cons_ne_nil _ _
    · split
      · exact List.cons_ne_nil _ _
      · exact List.cons_ne_nil _ _

/-- A character that is no separator belongs to the first piece. -/
theorem fields_cons {separator c : Char} (hc : c ≠ separator) {rest field : Text}
    {more : List Text} (h : fields separator rest = field :: more) :
    fields separator (c :: rest) = (c :: field) :: more := by
  rw [fields, if_neg hc, h]

/-- A text without the separator is one piece. -/
theorem fields_of_notMem {separator : Char} {t : Text} (h : separator ∉ t) :
    fields separator t = [t] := by
  induction t with
  | nil => rfl
  | cons c rest ih =>
    have hc : c ≠ separator := fun heq => h (heq ▸ List.mem_cons_self)
    have hrest : separator ∉ rest := fun hmem => h (List.mem_cons_of_mem c hmem)
    exact fields_cons hc (ih hrest)

/-- The first piece ends at the first separator. -/
theorem fields_append {separator : Char} {t : Text} (h : separator ∉ t) (rest : Text) :
    fields separator (t ++ separator :: rest) = t :: fields separator rest := by
  induction t with
  | nil => rw [List.nil_append, fields, if_pos rfl]
  | cons c t ih =>
    have hc : c ≠ separator := fun heq => h (heq ▸ List.mem_cons_self)
    have hrest : separator ∉ t := fun hmem => h (List.mem_cons_of_mem c hmem)
    exact fields_cons hc (ih hrest)

theorem join_cons (separator piece : Text) (pieces : List Text) :
    join separator (piece :: pieces) = piece ++ pieces.flatMap (separator ++ ·) := by
  induction pieces generalizing piece with
  | nil => rw [join, List.intercalate_singleton, List.flatMap_nil, List.append_nil]
  | cons next pieces ih =>
    have hrest := ih next
    rw [join] at hrest ⊢
    rw [List.intercalate_cons_cons, hrest, List.flatMap_cons]
    simp only [List.append_assoc]

/-- **Pieces that are joined are found again.** -/
theorem fields_join {separator : Char} {piece : Text} {pieces : List Text}
    (hpiece : separator ∉ piece) (h : ∀ t ∈ pieces, separator ∉ t) :
    fields separator (join [separator] (piece :: pieces)) = piece :: pieces := by
  induction pieces generalizing piece with
  | nil =>
    rw [join_cons, List.flatMap_nil, List.append_nil]
    exact fields_of_notMem hpiece
  | cons next pieces ih =>
    obtain ⟨hnext, hrest⟩ := List.forall_mem_cons.mp h
    have hjoin : join [separator] (piece :: next :: pieces) =
        piece ++ separator :: join [separator] (next :: pieces) := by
      rw [join_cons, join_cons, List.flatMap_cons]
      rfl
    rw [hjoin, fields_append hpiece, ih hnext hrest]

/-! ## Words and names -/

/-- A row of word characters. -/
def IsWord (t : Text) : Prop := t ≠ [] ∧ ∀ c ∈ t, isWord c = true

/-- A word that starts like a name. -/
def IsName (t : Text) : Prop :=
  ∃ c rest, t = c :: rest ∧ startsName c = true ∧ ∀ d ∈ rest, isWord d = true

/-- The characters that a name starts with lie between two code points. -/
theorem toNat_of_startsName {c : Char} (h : startsName c = true) :
    0x41 ≤ c.toNat ∧ c.toNat ≤ 0x7A := by
  simp only [startsName, Bool.or_eq_true, Bool.and_eq_true, decide_eq_true_eq, beq_iff_eq] at h
  rcases h with (⟨hlow, hhigh⟩ | ⟨hlow, hhigh⟩) | rfl
  · have hlow : 'a'.toNat ≤ c.toNat := hlow
    have hhigh : c.toNat ≤ 'z'.toNat := hhigh
    have hbounds : 'a'.toNat = 0x61 ∧ 'z'.toNat = 0x7A := ⟨rfl, rfl⟩
    omega
  · have hlow : 'A'.toNat ≤ c.toNat := hlow
    have hhigh : c.toNat ≤ 'Z'.toNat := hhigh
    have hbounds : 'A'.toNat = 0x41 ∧ 'Z'.toNat = 0x5A := ⟨rfl, rfl⟩
    omega
  · decide

theorem isWord_of_startsName {c : Char} (h : startsName c = true) : isWord c = true := by
  have hsmall : c.toNat < 0x80 := Nat.lt_of_le_of_lt (toNat_of_startsName h).2 (by decide)
  rw [isWord, if_pos hsmall, h]
  rfl

theorem ne_of_isWord {c d : Char} (hd : isWord d = false) (hc : isWord c = true) : c ≠ d := by
  rintro rfl
  exact absurd (hd.symm.trans hc) Bool.noConfusion

theorem notMem_of_isWord {t : Text} {d : Char} (hd : isWord d = false)
    (h : ∀ c ∈ t, isWord c = true) : d ∉ t := fun hmem => ne_of_isWord hd (h d hmem) rfl

theorem IsName.isWord {t : Text} (h : IsName t) : ∀ c ∈ t, isWord c = true := by
  obtain ⟨c, rest, rfl, hc, hrest⟩ := h
  exact List.forall_mem_cons.mpr ⟨isWord_of_startsName hc, hrest⟩

theorem isName_of_startsName {t : Text} (hne : t ≠ []) (h : t.all startsName = true) :
    IsName t := by
  cases t with
  | nil => exact absurd rfl hne
  | cons c rest =>
    obtain ⟨hc, hrest⟩ := List.forall_mem_cons.mp (List.all_eq_true.mp h)
    exact ⟨c, rest, rfl, hc, fun d hd => isWord_of_startsName (hrest d hd)⟩

end Text

namespace Token
open Text

/-! ## The end of a lexeme -/

/-- A space, a closing parenthesis or nothing follows. -/
def Ends (rest : Text) : Prop := ∀ c ∈ rest.head?, c = ' ' ∨ c = ')'

theorem ends_nil : Ends [] := fun _ hc => (nomatch hc)

theorem ends_space (rest : Text) : Ends (' ' :: rest) :=
  fun _ hc => Or.inl (Option.some.inj hc).symm

theorem ends_parenthesis (rest : Text) : Ends (')' :: rest) :=
  fun _ hc => Or.inr (Option.some.inj hc).symm

/-- A text that is cut off as one token wherever it ends. -/
structure Lexeme (kind : Kind) (t : Text) : Prop where
  visible : ∃ c ∈ t.head?, isBlank c = false
  cut : ∀ rest, Ends rest → first? (t ++ rest) = some (kind, t.length)

/-- **A lexeme is cut off.** -/
theorem scanFrom_lexeme {kind : Kind} {t rest : Text} (h : Lexeme kind t) (hends : Ends rest)
    (place : Nat) :
    scanFrom place (t ++ rest) =
      (scanFrom (place + t.length) rest).map (ofLexeme kind t place :: ·) := by
  obtain ⟨c, hc, hblank⟩ := h.visible
  have hcut := h.cut rest hends
  cases t with
  | nil => cases hc
  | cons d t =>
    obtain rfl : d = c := Option.some.inj hc
    rw [List.cons_append] at hcut ⊢
    rw [scanFrom, hblank, hcut]
    simp

theorem scanFrom_space (place : Nat) (rest : Text) :
    scanFrom place (' ' :: rest) = scanFrom (place + 1) rest := by
  have hblank : isBlank ' ' = true := by decide
  rw [scanFrom, hblank]
  rfl

/-! ## The classes exclude each other -/

theorem first?_text {t : Text} (h : literalLength t ≠ 0) :
    first? t = some (.text, literalLength t) := by
  simp [first?, classes, h]

theorem first?_number {t : Text} (htext : literalLength t = 0) (h : numberLength t ≠ 0) :
    first? t = some (.number, numberLength t) := by
  simp [first?, classes, htext, h]

/-- A quoted literal starts with a quote. -/
theorem literalLength_eq_zero {c : Char} (rest : Text) (hdouble : c ≠ '"') (hsingle : c ≠ '\'') :
    literalLength (c :: rest) = 0 := by
  simp [literalLength, hdouble, hsingle]

/-- A numeral starts with a minus sign or a digit. -/
theorem numberLength_eq_zero {c : Char} (rest : Text) (hminus : c ≠ '-')
    (hdigit : isDecimal c = false) : numberLength (c :: rest) = 0 := by
  have hnone : minusLength (c :: rest) = 0 := by simp [minusLength, hminus]
  simp [numberLength, hnone, run, hdigit]

theorem isDecimal_eq_false {c : Char} (hsmall : c.toNat < 0x80)
    (hdigit : c.toNat < 0x30 ∨ 0x39 < c.toNat) : isDecimal c = false := by
  have hrange : ¬ ('0' ≤ c ∧ c ≤ '9') := by
    rintro ⟨hlow, hhigh⟩
    have hlow : '0'.toNat ≤ c.toNat := hlow
    have hhigh : c.toNat ≤ '9'.toNat := hhigh
    have hbounds : '0'.toNat = 0x30 ∧ '9'.toNat = 0x39 := ⟨rfl, rfl⟩
    omega
  rw [isDecimal, decimalValue?, if_neg hrange, if_pos hsmall]
  rfl

/-- A character that starts a path starts nothing else. -/
theorem first?_path {c : Char} {rest : Text} (hc : startsName c = true ∨ c = '$')
    (h : pathLength (c :: rest) ≠ 0) :
    first? (c :: rest) = some (.path, pathLength (c :: rest)) := by
  -- the other classes start below the letters, or with one of three signs among them
  have hrange : c.toNat = 0x24 ∨ 0x41 ≤ c.toNat ∧ c.toNat ≤ 0x7A := by
    rcases hc with hc | rfl
    · exact Or.inr (toNat_of_startsName hc)
    · exact Or.inl rfl
  have hne : ∀ d : Char, d.toNat < 0x24 ∨ (0x24 < d.toNat ∧ d.toNat < 0x41) → c ≠ d := by
    rintro d hd rfl
    omega
  have htext := literalLength_eq_zero rest (hne '"' (by decide)) (hne '\'' (by decide))
  have hnumber := numberLength_eq_zero rest (hne '-' (by decide))
    (isDecimal_eq_false (by omega) (by omega))
  have hcomparison : comparisonLength (c :: rest) = 0 := by
    have hequal := hne '=' (by decide)
    have hunequal := hne '!' (by decide)
    have hless := hne '<' (by decide)
    have hgreater := hne '>' (by decide)
    simp [comparisonLength, Comparison.all, Comparison.sign, List.isPrefixOf, hequal.symm,
      hunequal.symm, hless.symm, hgreater.symm]
  have hparenthesis : parenthesisLength (c :: rest) = 0 := by
    simp [parenthesisLength, hne '(' (by decide), hne ')' (by decide)]
  simp [first?, classes, htext, hnumber, hcomparison, hparenthesis, h]

/-! ## Paths and keywords -/

theorem pathTail_of_ends {rest : Text} (h : Ends rest) : pathTail rest = 0 := by
  cases rest with
  | nil => rfl
  | cons c rest =>
    rcases h c rfl with rfl | rfl
    · rfl
    · rfl

/-- A path goes on over word characters. -/
theorem pathTail_append {word : Text} (h : ∀ c ∈ word, isWord c = true) (rest : Text) :
    pathTail (word ++ rest) = word.length + pathTail rest := by
  induction word with
  | nil => rw [List.nil_append, List.length_nil, Nat.zero_add]
  | cons c word ih =>
    obtain ⟨hc, hrest⟩ := List.forall_mem_cons.mp h
    rw [List.cons_append, pathTail.eq_def]
    simp only [hc, if_true, ih hrest, List.length_cons]
    omega

/-- A path goes on over a point before a word. -/
theorem pathTail_point {word : Text} (h : IsWord word) (rest : Text) :
    pathTail ('.' :: (word ++ rest)) = word.length + 1 + pathTail rest := by
  obtain ⟨hne, hword⟩ := h
  cases word with
  | nil => exact absurd rfl hne
  | cons c word =>
    have hc := hword c List.mem_cons_self
    have hpoint : isWord '.' = false := by decide
    have htail := pathTail_append hword rest
    rw [List.cons_append] at htail ⊢
    rw [pathTail.eq_def]
    simp only [hpoint, Bool.false_eq_true, if_false, if_true, hc, htail]
    omega

/-- A path goes on over all its steps. -/
theorem pathTail_steps {steps : List Text} (h : ∀ step ∈ steps, IsWord step) (rest : Text) :
    pathTail (steps.flatMap (['.'] ++ ·) ++ rest) =
      (steps.flatMap (['.'] ++ ·)).length + pathTail rest := by
  induction steps with
  | nil => rw [List.flatMap_nil, List.nil_append, List.length_nil, Nat.zero_add]
  | cons step steps ih =>
    obtain ⟨hstep, hrest⟩ := List.forall_mem_cons.mp h
    rw [List.flatMap_cons, List.append_assoc, List.append_assoc, List.singleton_append,
      pathTail_point hstep, ih hrest]
    simp only [List.length_append, List.length_singleton]
    omega

/-- **A name and words with points between them are one path**, marked by a dollar sign or not. -/
theorem pathLength_path {head : Text} {steps : List Text} (hhead : IsName head)
    (hsteps : ∀ step ∈ steps, IsWord step) (rest : Text) :
    pathLength (join ['.'] (head :: steps) ++ rest) =
        (join ['.'] (head :: steps)).length + pathTail rest ∧
      pathLength ('$' :: (join ['.'] (head :: steps) ++ rest)) =
        (join ['.'] (head :: steps)).length + 1 + pathTail rest := by
  obtain ⟨c, name, rfl, hc, hname⟩ := hhead
  have hdollar : c ≠ '$' := ne_of_isWord (by decide) (isWord_of_startsName hc)
  have htail : pathTail (name ++ (steps.flatMap (['.'] ++ ·) ++ rest)) =
      name.length + ((steps.flatMap (['.'] ++ ·)).length + pathTail rest) := by
    rw [pathTail_append hname, pathTail_steps hsteps]
  rw [join_cons, List.append_assoc, List.cons_append]
  constructor
  · have hnone : dollarLength (c :: (name ++ (steps.flatMap (['.'] ++ ·) ++ rest))) = 0 := by
      simp [dollarLength, hdollar]
    simp only [pathLength, hnone, List.drop_zero, hc, if_true, htail, List.length_append,
      List.length_cons]
    omega
  · simp only [pathLength, dollarLength, List.drop_succ_cons, List.drop_zero, hc, if_true, htail,
      List.length_append, List.length_cons]
    omega

/-- A written path is a lexeme. -/
theorem lexeme_path {head : Text} {steps : List Text} (hhead : IsName head)
    (hsteps : ∀ step ∈ steps, IsWord step) : Lexeme .path ('$' :: join ['.'] (head :: steps)) := by
  refine ⟨⟨'$', rfl, by decide⟩, fun rest hends => ?_⟩
  have hlength := (pathLength_path hhead hsteps rest).2
  rw [pathTail_of_ends hends, Nat.add_zero] at hlength
  rw [List.cons_append, first?_path (Or.inr rfl) (by omega), hlength, List.length_cons]

/-- A name is a lexeme, and a keyword is a name. -/
theorem lexeme_name {name : Text} (h : IsName name) : Lexeme .path name := by
  obtain ⟨c, rest, rfl, hc, hrest⟩ := h
  constructor
  · have hbounds := toNat_of_startsName hc
    refine ⟨c, rfl, ?_⟩
    simp only [isBlank, Bool.or_eq_false_iff, Bool.and_eq_false_iff, decide_eq_false_iff_not,
      beq_eq_false_iff_ne]
    omega
  · intro after hends
    have hlength := (pathLength_path ⟨c, rest, rfl, hc, hrest⟩ (List.forall_mem_nil _) after).1
    rw [join_cons, List.flatMap_nil, List.append_nil, List.cons_append, pathTail_of_ends hends,
      Nat.add_zero] at hlength
    rw [List.cons_append, first?_path (Or.inl hc) (by rw [hlength]; exact Nat.succ_ne_zero _),
      hlength]

/-- **The shape of a path in a text**: what follows its first character is the end of a word, and
further words with a point before each. -/
theorem fields_take_pathTail (t : Text) :
    ∃ word steps, fields '.' (t.take (pathTail t)) = word :: steps ∧
      (∀ c ∈ word, isWord c = true) ∧ (∀ c ∈ t.head?, isWord c = true → word ≠ []) ∧
        ∀ step ∈ steps, IsWord step := by
  -- where the path does not go on, no word follows
  have hstop : ∀ t : Text, (∀ c ∈ t.head?, ¬ isWord c = true) →
      ∃ word steps, fields '.' (t.take 0) = word :: steps ∧ (∀ c ∈ word, isWord c = true) ∧
        (∀ c ∈ t.head?, isWord c = true → word ≠ []) ∧ ∀ step ∈ steps, IsWord step := by
    intro t h
    exact ⟨[], [], by rw [List.take_zero, fields], List.forall_mem_nil _,
      fun c hc hword => absurd hword (h c hc), List.forall_mem_nil _⟩
  fun_induction pathTail t with
  | case1 => exact hstop [] nofun
  | case2 c rest hc ih =>
    obtain ⟨word, steps, hfields, hword, -, hsteps⟩ := ih
    have hpoint : c ≠ '.' := ne_of_isWord (by decide) hc
    refine ⟨c :: word, steps, ?_, List.forall_mem_cons.mpr ⟨hc, hword⟩,
      fun _ _ _ => List.cons_ne_nil _ _, hsteps⟩
    rw [List.take_succ_cons]
    exact fields_cons hpoint hfields
  | case3 d rest hd hpoint ih =>
    obtain ⟨word, steps, hfields, hword, hne, hsteps⟩ := ih
    refine ⟨[], word :: steps, ?_, List.forall_mem_nil _, fun c hc hcword => ?_,
      List.forall_mem_cons.mpr ⟨⟨hne d rfl hd, hword⟩, hsteps⟩⟩
    · rw [List.take_succ_cons, fields, if_pos rfl, hfields]
    · obtain rfl : '.' = c := Option.some.inj hc
      exact absurd hcword hpoint
  | case4 d rest hd hpoint => exact hstop _ fun c hc => Option.some.inj hc ▸ hpoint
  | case5 hpoint => exact hstop _ fun c hc => Option.some.inj hc ▸ hpoint
  | case6 c rest hc hne => exact hstop _ fun d hd => Option.some.inj hd ▸ hc

/-- **What a path is taken apart into**: a name and words. -/
theorem fields_take_pathLength {t : Text} (h : pathLength t ≠ 0) :
    ∃ head steps,
      fields '.' ((t.take (pathLength t)).drop (dollarLength (t.take (pathLength t)))) =
        head :: steps ∧ IsName head ∧ ∀ step ∈ steps, IsWord step := by
  have hname : ∀ (c : Char) (rest : Text), startsName c = true →
      ∃ head steps, fields '.' (c :: rest.take (pathTail rest)) = head :: steps ∧ IsName head ∧
        ∀ step ∈ steps, IsWord step := by
    intro c rest hc
    obtain ⟨word, steps, hfields, hword, -, hsteps⟩ := fields_take_pathTail rest
    have hpoint : c ≠ '.' := ne_of_isWord (by decide) (isWord_of_startsName hc)
    exact ⟨c :: word, steps, fields_cons hpoint hfields, ⟨c, word, rfl, hc, hword⟩, hsteps⟩
  cases t with
  | nil => exact absurd rfl h
  | cons first more =>
    by_cases hdollar : first = '$'
    · subst hdollar
      cases more with
      | nil => exact absurd rfl h
      | cons c rest =>
        simp only [pathLength, dollarLength, List.drop_succ_cons, List.drop_zero] at h ⊢
        split at h
        · rename_i hc
          have hlength : 1 + 1 + pathTail rest = pathTail rest + 1 + 1 := by omega
          rw [if_pos hc, hlength, List.take_succ_cons, List.take_succ_cons]
          exact hname c rest hc
        · exact absurd rfl h
    · have hnone : ∀ rest : Text, dollarLength (first :: rest) = 0 := by
        intro rest
        simp [dollarLength, hdollar]
      simp only [pathLength, hnone, List.drop_zero] at h ⊢
      split at h
      · rename_i hc
        rw [if_pos hc, Nat.zero_add, Nat.add_comm, List.take_succ_cons, hnone, List.drop_zero]
        exact hname first more hc
      · exact absurd rfl h

/-! ## Signs, numerals and quoted literals -/

/-- A comparison sign is a lexeme. -/
theorem lexeme_sign (c : Comparison) : Lexeme .comparison c.sign := by
  constructor
  · cases c with
    | equal | unequal | lessOrEqual | greaterOrEqual | less | greater =>
      exact ⟨_, rfl, by decide⟩
  · intro rest hends
    -- of the two signs that begin alike, the shorter one is followed by its end
    cases rest with
    | nil => cases c <;> rfl
    | cons d rest =>
      rcases hends d rfl with rfl | rfl
      · cases c <;> rfl
      · cases c <;> rfl

/-- What ends a lexeme ends a numeral. -/
theorem Ends.numeral {rest : Text} (h : Ends rest) :
    (∀ c ∈ rest.head?, isDecimal c = false) ∧ fractionLength rest = 0 ∧ runsOn rest = false := by
  cases rest with
  | nil => exact ⟨nofun, rfl, rfl⟩
  | cons c rest =>
    rcases h c rfl with rfl | rfl
    · exact ⟨fun c hc => Option.some.inj hc ▸ by decide, rfl, rfl⟩
    · exact ⟨fun c hc => Option.some.inj hc ▸ by decide, rfl, rfl⟩

/-- Digits are counted to their end. -/
theorem run_isDecimal_append {digits rest : Text} (h : ∀ c ∈ digits, isDecimal c = true)
    (hrest : ∀ c ∈ rest.head?, isDecimal c = false) :
    run isDecimal (digits ++ rest) = digits.length := by
  have hnone : rest.takeWhile isDecimal = [] := by
    cases rest with
    | nil => rfl
    | cons c rest => exact List.takeWhile_cons_of_neg (by simp [hrest c rfl])
  rw [run, List.takeWhile_append_of_pos h, hnone, List.append_nil]

/-- **A numeral is measured to its end**: a sign or none, digits, and the fraction where there is
one. -/
theorem numberLength_append {minus digits fraction rest : Text}
    (hminus : minus = [] ∨ minus = ['-']) (hne : digits ≠ [])
    (h : ∀ c ∈ digits, isDecimal c = true)
    (hstop : ∀ c ∈ (fraction ++ rest).head?, isDecimal c = false)
    (hfraction : fractionLength (fraction ++ rest) = fraction.length)
    (hruns : runsOn rest = false) :
    numberLength (minus ++ digits ++ fraction ++ rest) =
      (minus ++ digits ++ fraction).length := by
  have hwhole : digits.length ≠ 0 := fun hzero => hne (List.eq_nil_of_length_eq_zero hzero)
  have hsign : minusLength (minus ++ digits ++ fraction ++ rest) = minus.length := by
    rcases hminus with rfl | rfl
    · obtain ⟨first, more, rfl⟩ := List.exists_cons_of_ne_nil hne
      have hnone : first ≠ '-' := Numeral.ne_of_isDecimal (by decide) (h first List.mem_cons_self)
      simp [minusLength, hnone]
    · rfl
  have hdigits : (minus ++ digits ++ fraction ++ rest).drop minus.length =
      digits ++ (fraction ++ rest) := by
    rw [List.append_assoc, List.append_assoc, List.drop_left]
  have hafter : (minus ++ digits ++ fraction ++ rest).drop (minus.length + digits.length) =
      fraction ++ rest := by
    rw [← List.length_append, List.append_assoc, List.drop_left]
  have hrest : (minus ++ digits ++ fraction ++ rest).drop
      (minus.length + digits.length + fraction.length) = rest := by
    rw [← List.length_append, ← List.length_append, List.drop_left]
  simp only [numberLength, hsign, hdigits, run_isDecimal_append h hstop, if_neg hwhole, hafter,
    hfraction, hrest, hruns, Bool.false_eq_true, if_false, List.length_append]

/-- A minus sign or none and decimal digits are a lexeme. -/
theorem lexeme_digits {minus digits : Text} (hminus : minus = [] ∨ minus = ['-'])
    (hne : digits ≠ []) (h : ∀ c ∈ digits, c.isDigit = true) :
    Lexeme .number (minus ++ digits) := by
  have hdecimal : ∀ c ∈ digits, isDecimal c = true := fun c hc => isDecimal_of_isDigit (h c hc)
  obtain ⟨first, more, rfl⟩ := List.exists_cons_of_ne_nil hne
  have hfirst : first.isDigit = true := h first List.mem_cons_self
  refine ⟨?_, fun rest hends => ?_⟩
  · rcases hminus with rfl | rfl
    · exact ⟨first, rfl, isBlank_of_isDigit hfirst⟩
    · exact ⟨'-', rfl, by decide⟩
  · obtain ⟨hrest, hfraction, hruns⟩ := hends.numeral
    have hother : ∀ c : Char, isDecimal c = false → first ≠ c := fun c hc =>
      Numeral.ne_of_isDecimal hc (isDecimal_of_isDigit hfirst)
    have hliteral : literalLength (minus ++ first :: more ++ rest) = 0 := by
      rcases hminus with rfl | rfl
      · exact literalLength_eq_zero _ (hother '"' (by decide)) (hother '\'' (by decide))
      · rfl
    have hnumber : numberLength (minus ++ first :: more ++ [] ++ rest) =
        (minus ++ first :: more ++ []).length :=
      numberLength_append hminus hne hdecimal hrest hfraction hruns
    rw [List.append_nil] at hnumber
    have hvisible : (minus ++ first :: more).length ≠ 0 := by
      rw [List.length_append]
      exact Nat.add_one_ne_zero _
    rw [first?_number hliteral (by rw [hnumber]; exact hvisible), hnumber]

/-- An integer as it is written is a lexeme. -/
theorem lexeme_int (n : Int) : Lexeme .number (ofInt n) := by
  have hdigits : ∀ c ∈ ofNat n.natAbs, c.isDigit = true := fun c hc => isDigit_of_mem_ofNat hc
  rcases ofInt_eq n with ⟨-, hshape⟩ | ⟨-, hshape⟩
  · rw [hshape]
    exact lexeme_digits (Or.inl rfl) (ofNat_ne_nil _) hdigits
  · rw [hshape]
    exact lexeme_digits (Or.inr rfl) (ofNat_ne_nil _) hdigits

theorem closing?_append {quote : Char} {t : Text} (h : ∀ c ∈ t, c ≠ '\\' ∧ c ≠ quote)
    (rest : Text) :
    closing? quote (t ++ rest) = (closing? quote rest).map (· + t.length) := by
  induction t with
  | nil => simp
  | cons c t ih =>
    obtain ⟨⟨hbackslash, hquote⟩, hrest⟩ := List.forall_mem_cons.mp h
    rw [List.cons_append, closing?_cons hbackslash, if_neg hquote, ih hrest, Option.map_map]
    rfl

/-- **The escape of a code point does not close the literal.** -/
theorem closing?_escaped {quote : Char} (hquote : IsQuote quote) {n : Nat} {shown : Text}
    (h : Escaped quote n shown) (rest : Text) :
    closing? quote (shown ++ rest) = (closing? quote rest).map (· + shown.length) := by
  have hletter : ∀ (letter : Char) (after : Text), breaksLine letter = false →
      closing? quote ('\\' :: letter :: after) = (closing? quote after).map (· + 2) := by
    intro letter after hbreak
    have hfeed : letter ≠ '\n' := by
      rintro rfl
      exact absurd hbreak (by decide)
    rw [closing?, if_neg hfeed]
  cases h with
  | plain hne hbackslash hbreak hnull =>
    exact closing?_append (by simpa using ⟨hbackslash, hne⟩) rest
  | simple hsimple hbreak hnull => exact hletter _ rest hbreak
  | @numbered letter width n hwidth hlast hpower =>
    have hordinary : ∀ c ∈ hexadecimal width n, c ≠ '\\' ∧ c ≠ quote := by
      intro c hc
      obtain ⟨hbackslash, hsingle, hdouble, -, -⟩ := hexadecimal_ordinary hc
      rcases hquote with rfl | rfl
      · exact ⟨hbackslash, hsingle⟩
      · exact ⟨hbackslash, hdouble⟩
    rw [List.cons_append, List.cons_append, hletter _ _ (escapeWidth?_ordinary hwidth).1,
      closing?_append hordinary, Option.map_map]
    rfl

theorem closing?_flatMap {quote : Char} (hquote : IsQuote quote) {codes : List Nat}
    (hcodes : ∀ n ∈ codes, n ≤ lastPoint) (rest : Text) :
    closing? quote (codes.flatMap (escapePoint quote) ++ rest) =
      (closing? quote rest).map (· + (codes.flatMap (escapePoint quote)).length) := by
  induction codes with
  | nil => simp
  | cons n codes ih =>
    obtain ⟨hn, hrest⟩ := List.forall_mem_cons.mp hcodes
    rw [List.flatMap_cons, List.append_assoc, closing?_escaped hquote (escaped_escapePoint hquote hn),
      ih hrest, Option.map_map, List.length_append]
    congr 1
    funext m
    simp only [Function.comp_apply]
    omega

/-- Code points between quotes are a lexeme. -/
theorem lexeme_quotedPoints {codes : List Nat} (hcodes : ∀ n ∈ codes, n ≤ lastPoint) :
    Lexeme .text (quotedPoints codes) := by
  have hquote := isQuote_quoteFor (codes.map Char.ofNat)
  have hshape : quotedPoints codes = quoteFor (codes.map Char.ofNat) ::
      (codes.flatMap (escapePoint (quoteFor (codes.map Char.ofNat))) ++
        [quoteFor (codes.map Char.ofNat)]) := rfl
  rw [hshape]
  generalize quoteFor (codes.map Char.ofNat) = quote at hquote
  constructor
  · refine ⟨quote, rfl, ?_⟩
    rcases hquote with rfl | rfl
    · decide
    · decide
  · intro rest hends
    have hbackslash : quote ≠ '\\' := by
      rcases hquote with rfl | rfl
      · decide
      · decide
    have hclosing : closing? quote
        (codes.flatMap (escapePoint quote) ++ [quote] ++ rest) =
          some ((codes.flatMap (escapePoint quote)).length + 1) := by
      rw [List.append_assoc, closing?_flatMap hquote hcodes, List.singleton_append,
        closing?_cons hbackslash, if_pos rfl, Option.map_some, Nat.add_comm]
    have hstarts : (quote = '"' || quote = '\'') = true := by
      rcases hquote with rfl | rfl
      · rfl
      · rfl
    have hlength : literalLength
        (quote :: (codes.flatMap (escapePoint quote) ++ [quote]) ++ rest) =
          (quote :: (codes.flatMap (escapePoint quote) ++ [quote])).length := by
      rw [List.cons_append, literalLength, if_pos hstarts, hclosing]
      simp
    rw [first?_text (by rw [hlength]; exact Nat.succ_ne_zero _), hlength]

end Token
end Stencil
