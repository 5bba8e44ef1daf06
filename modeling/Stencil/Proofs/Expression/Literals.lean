import Stencil.Expression.Reading
import Stencil.Proofs.Number.Numerals

/-! # Literals that cannot be read

An expression that cannot be read is refused, or is nested too deeply, or holds a literal of the
shape of one but without value (`Expression.read_eq_error`).  Of the last there are two kinds
(`Expression.BadLiteral`): a quoted literal that cannot be decoded, and a whole number of too many
digits.  Such a literal stands in the text as it is: a token is a piece of the text, and if it is a
literal it has the shape of one (`Token.shaped_of_scanFrom`); and reading that finds room fails with
anything but a refusal only where it asks for the value of a literal
(`Expression.State.read_eq_error`).
-/

namespace Stencil

namespace Token

/-! ## The shape of literals -/

theorem closing?_cons {quote c : Char} (hc : c ≠ '\\') (rest : Text) :
    closing? quote (c :: rest) =
      if c = quote then some 1 else (closing? quote rest).map (· + 1) := by
  cases rest <;> simp [closing?, hc]

/-- A quoted literal ends where its closing quote is found. -/
theorem closing?_take {quote : Char} {t : Text} {n : Nat} (h : closing? quote t = some n) :
    n ≤ t.length ∧ closing? quote (t.take n) = some n := by
  fun_induction closing? quote t generalizing n with
  | case1 => cases h
  | case2 => cases h
  | case3 => cases h
  | case4 c rest hbreak ih =>
    obtain ⟨m, hm, rfl⟩ := Option.map_eq_some_iff.mp h
    obtain ⟨hle, htake⟩ := ih hm
    refine ⟨by simp only [List.length_cons]; omega, ?_⟩
    rw [List.take_succ_cons, List.take_succ_cons, closing?, if_neg hbreak, htake]
    rfl
  | case5 rest hsingle hescape =>
    obtain rfl := Option.some.inj h
    have hquote : quote ≠ '\\' := by
      rintro rfl
      cases rest with
      | nil => exact hsingle rfl rfl
      | cons c rest => exact hescape c rest rfl rfl
    refine ⟨Nat.le_add_left 1 _, ?_⟩
    rw [List.take_succ_cons, closing?_cons hquote, if_pos rfl]
  | case6 c rest hsingle hescape hne ih =>
    have hc : c ≠ '\\' := by
      rintro rfl
      cases rest with
      | nil => exact hsingle rfl rfl
      | cons c rest => exact hescape c rest rfl rfl
    obtain ⟨m, hm, rfl⟩ := Option.map_eq_some_iff.mp h
    obtain ⟨hle, htake⟩ := ih hm
    refine ⟨Nat.succ_le_succ hle, ?_⟩
    rw [List.take_succ_cons, closing?_cons hc, if_neg hne, htake]
    rfl

/-- A quoted literal is all of the text that it is. -/
theorem literalLength_take (t : Text) :
    literalLength (t.take (literalLength t)) = (t.take (literalLength t)).length := by
  cases t with
  | nil => rfl
  | cons c rest =>
    rw [literalLength]
    split
    · rename_i hquote
      cases hclosing : closing? c rest with
      | none => rfl
      | some n =>
        obtain ⟨hle, htake⟩ := closing?_take hclosing
        simp only [List.take_succ_cons, literalLength, if_pos hquote, htake, List.length_cons,
          List.length_take, Nat.min_eq_left hle]
    · rfl

/-- A sign or none and decimal digits, and perhaps a point with something behind it. -/
def IsNumeral (t : Text) : Prop :=
  ∃ minus digits fraction : Text, t = minus ++ digits ++ fraction ∧
    (minus = [] ∨ minus = ['-']) ∧ digits ≠ [] ∧ (∀ c ∈ digits, Text.isDecimal c = true) ∧
      (fraction = [] ∨ '.' ∈ fraction)

theorem minus_take (t : Text) :
    t.take (minusLength t) = [] ∨ t.take (minusLength t) = ['-'] := by
  unfold minusLength
  split
  · exact Or.inr rfl
  · exact Or.inl List.take_zero

/-- A row of decimal digits. -/
def IsDigits (t : Text) : Prop := t ≠ [] ∧ ∀ c ∈ t, Text.isDecimal c = true

/-- The digits that are counted are a row of them. -/
theorem isDigits_take_run {t : Text} (h : run Text.isDecimal t ≠ 0) :
    IsDigits (t.take (run Text.isDecimal t)) := by
  have hdigits : t.takeWhile Text.isDecimal = t.take (run Text.isDecimal t) :=
    List.prefix_iff_eq_take.mp (List.takeWhile_prefix _)
  rw [← hdigits]
  exact ⟨fun hnil => h (by rw [run, hnil, List.length_nil]),
    List.all_eq_true.mp List.all_takeWhile⟩

/-- The fraction that is counted is a point and digits. -/
theorem fraction_take (t : Text) :
    t.take (fractionLength t) = [] ∨
      ∃ decimals, IsDigits decimals ∧ t.take (fractionLength t) = '.' :: decimals := by
  unfold fractionLength
  split
  · rename_i rest
    split
    · exact Or.inl List.take_zero
    · rename_i n hrun
      have hdigits := isDigits_take_run (hrun ▸ Nat.succ_ne_zero n)
      exact Or.inr ⟨_, hdigits, by rw [List.take_succ_cons, hrun]⟩
  · exact Or.inl List.take_zero

/-- What is counted of a numeral, and where it ends. -/
theorem numberLength_parts {t : Text} (h : numberLength t ≠ 0) :
    run Text.isDecimal (t.drop (minusLength t)) ≠ 0 ∧
      numberLength t = minusLength t + run Text.isDecimal (t.drop (minusLength t)) +
        fractionLength (t.drop (minusLength t + run Text.isDecimal (t.drop (minusLength t)))) ∧
      runsOn (t.drop (numberLength t)) = false := by
  rw [numberLength] at h ⊢
  simp only at h ⊢
  split at h
  · exact absurd rfl h
  · rename_i hwhole
    split at h
    · exact absurd rfl h
    · rename_i hends
      rw [if_neg hwhole, if_neg hends]
      exact ⟨hwhole, rfl, Bool.eq_false_iff.mpr hends⟩

/-- A numeral has the shape of one. -/
theorem isNumeral_take {t : Text} (h : numberLength t ≠ 0) :
    IsNumeral (t.take (numberLength t)) := by
  obtain ⟨hwhole, hsum, -⟩ := numberLength_parts h
  obtain ⟨hne, hdigits⟩ := isDigits_take_run hwhole
  rw [hsum, List.take_add, List.take_add]
  refine ⟨_, _, _, rfl, minus_take t, hne, hdigits, (fraction_take _).imp_right ?_⟩
  rintro ⟨decimals, -, hfraction⟩
  exact hfraction ▸ List.mem_cons_self

/-- A token that is a literal is a piece of the text, and has the shape of one. -/
structure Shaped (t : Text) (token : Token) : Prop where
  inside : token.kind = .text ∨ token.kind = .number → token.text <:+: t
  text : token.kind = .text → literalLength token.text = token.text.length
  number : token.kind = .number →
    IsNumeral token.text ∧ ∀ c ∈ token.text.head?, Text.isBlank c = false

theorem Shaped.trans {t u : Text} {token : Token} (h : Shaped t token) (htu : t <:+: u) :
    Shaped u token :=
  ⟨fun hkind => (h.inside hkind).trans htu, h.text, h.number⟩

/-- What is found at the front of a text is a lexeme of one of the classes. -/
theorem exists_class_of_first? {t : Text} {kind : Kind} {n : Nat} (h : first? t = some (kind, n)) :
    n ≠ 0 ∧ ∃ length, (kind, length) ∈ classes ∧ n = length t := by
  obtain ⟨entry, hmem, hentry⟩ := List.exists_of_findSome?_eq_some h
  split at hentry
  · cases hentry
  · rename_i hne
    obtain ⟨rfl, rfl⟩ := Prod.mk.inj (Option.some.inj hentry)
    exact ⟨hne, entry.2, hmem, rfl⟩

/-- The class that is found at the front of a text has a lexeme there. -/
theorem first?_eq_some {t : Text} {kind : Kind} {n : Nat} (h : first? t = some (kind, n)) :
    n ≠ 0 ∧ (kind = .text → n = literalLength t) ∧ (kind = .number → n = numberLength t) ∧
      (kind = .path → n = pathLength t) := by
  obtain ⟨hne, length, hmem, rfl⟩ := exists_class_of_first? h
  simp only [classes, List.mem_cons, Prod.mk.injEq, List.not_mem_nil, or_false] at hmem
  rcases hmem with ⟨rfl, rfl⟩ | ⟨rfl, rfl⟩ | ⟨rfl, rfl⟩ | ⟨rfl, rfl⟩ | ⟨rfl, rfl⟩
  all_goals exact ⟨hne, by simp⟩

theorem shaped_ofLexeme {t : Text} {kind : Kind} {n : Nat} (h : first? t = some (kind, n))
    (hblank : ∀ c ∈ t.head?, Text.isBlank c = false) (place : Nat) :
    Shaped t (ofLexeme kind (t.take n) place) := by
  obtain ⟨hne, htext, hnumber, -⟩ := first?_eq_some h
  rw [ofLexeme]
  split
  · exact ⟨fun hkind => by simp at hkind, fun hkind => (nomatch hkind),
      fun hkind => (nomatch hkind)⟩
  · refine ⟨fun _ => (List.take_prefix n t).isInfix, fun hkind => ?_, fun hkind => ⟨?_, ?_⟩⟩
    · rw [htext hkind]
      exact literalLength_take t
    · have hlength := hnumber hkind
      rw [hlength]
      exact isNumeral_take (hlength ▸ hne)
    · cases n with
      | zero => exact absurd rfl hne
      | succ n =>
        cases t with
        | nil => exact hblank
        | cons c rest => exact hblank

/-- **Where a token comes from**: one that is not the end is the lexeme at the front of a rest of
the text. -/
theorem exists_lexeme_of_scanFrom {place : Nat} {t : Text} {tokens : List Token}
    (h : scanFrom place t = .ok tokens) {token : Token} (htoken : token ∈ tokens)
    (hkind : token.kind ≠ .finish) :
    ∃ rest kind n start, rest <:+ t ∧ (∀ c ∈ rest.head?, Text.isBlank c = false) ∧
      first? rest = some (kind, n) ∧ token = ofLexeme kind (rest.take n) start := by
  fun_induction scanFrom place t generalizing tokens with
  | case1 place =>
    obtain rfl := Except.ok.inj h
    rw [List.mem_singleton.mp htoken] at hkind
    exact absurd rfl hkind
  | case2 place c rest hblank ih =>
    obtain ⟨u, kind, n, start, hsuffix, hu⟩ := ih h htoken
    exact ⟨u, kind, n, start, hsuffix.trans (List.suffix_cons c rest), hu⟩
  | case3 => cases h
  | case4 place c rest hblank kind n hfirst ih =>
    cases hmore : scanFrom (place + n) (rest.drop (n - 1)) with
    | error fault => simp [hmore, Except.map] at h
    | ok more =>
      simp only [hmore, Except.map, Except.ok.injEq] at h
      subst h
      rcases List.mem_cons.mp htoken with rfl | htoken
      · exact ⟨c :: rest, kind, n, place, List.suffix_rfl,
          fun d hd => Option.some.inj hd ▸ eq_false_of_ne_true hblank, hfirst, rfl⟩
      · have hrest : rest.drop (n - 1) <:+ c :: rest :=
          (List.drop_suffix _ rest).trans (List.suffix_cons c rest)
        obtain ⟨u, kind, n, start, hsuffix, hu⟩ := ih hmore htoken
        exact ⟨u, kind, n, start, hsuffix.trans hrest, hu⟩

/-- The tokens of a text that are literals have their shape. -/
theorem shaped_of_scanFrom {place : Nat} {t : Text} {tokens : List Token}
    (h : scanFrom place t = .ok tokens) : ∀ token ∈ tokens, Shaped t token := by
  intro token htoken
  by_cases hkind : token.kind = .finish
  · exact ⟨by simp [hkind], by simp [hkind], by simp [hkind]⟩
  · obtain ⟨rest, kind, n, start, hsuffix, hblank, hfirst, rfl⟩ :=
      exists_lexeme_of_scanFrom h htoken hkind
    exact (shaped_ofLexeme hfirst hblank start).trans hsuffix.isInfix

end Token

namespace Expression

variable [Host]

/-- A fault about a literal that stands in a text: a quoted one that cannot be decoded, or a whole
number of too many digits. -/
inductive BadLiteral (t : Text) : Fault → Prop
  | quoted {literal : Text} {fault : Text.LiteralFault} (position : Nat)
      (hinside : literal <:+: t) (hshape : Token.literalLength literal = literal.length)
      (hfault : Text.unquote Host.character? literal = .error fault) :
      BadLiteral t (.malformedLiteral fault position)
  | numeral {digits : Text} (position : Nat) (hinside : digits <:+: t)
      (hdigits : ∀ c ∈ digits, Text.isDecimal c = true) (hlong : Numeral.longest < digits.length) :
      BadLiteral t (.oversizedNumeral (.tooLong digits.length) position)

theorem BadLiteral.trans {t u : Text} {fault : Fault} (h : BadLiteral t fault) (htu : t <:+: u) :
    BadLiteral u fault := by
  cases h with
  | quoted position hinside hshape hfault =>
    exact .quoted position (hinside.trans htu) hshape hfault
  | numeral position hinside hdigits hlong =>
    exact .numeral position (hinside.trans htu) hdigits hlong

/-- A fault with the value of a token is about a literal in the text. -/
def ValueFault (token : Token) (fault : Fault) : Prop :=
  token.kind = .text ∧ readText token = .error fault ∨
    token.kind = .number ∧ readNumber token = .error fault

theorem ValueFault.badLiteral {t : Text} {token : Token} (hshaped : Token.Shaped t token)
    {fault : Fault} (h : ValueFault token fault) : BadLiteral t fault := by
  rcases h with ⟨hkind, hread⟩ | ⟨hkind, hread⟩
  · rw [readText] at hread
    cases hunquote : Text.unquote Host.character? token.text with
    | ok codes => simp [hunquote] at hread
    | error literalFault =>
      simp only [hunquote, Except.error.injEq] at hread
      exact hread ▸ .quoted _ (hshaped.inside (Or.inl hkind)) (hshaped.text hkind) hunquote
  · obtain ⟨⟨minus, digits, fraction, hparts, hminus, hne, hdigits, hfraction⟩, hblank⟩ :=
      hshaped.number hkind
    rw [readNumber] at hread
    split at hread
    · cases hread
    · rename_i hpoint
      -- without a point there are only a sign and digits
      have hnone : fraction = [] := by
        rcases hfraction with hnil | hmem
        · exact hnil
        · exact absurd (by simp [hparts, hmem]) hpoint
      rw [hnone, List.append_nil] at hparts
      rw [hparts] at hblank
      cases hnumber : Numeral.read token.text with
      | ok n => simp [hnumber] at hread
      | error numeralFault =>
        simp only [hnumber, Except.error.injEq] at hread
        obtain ⟨rfl, hlong⟩ := Numeral.read_eq_error hminus hne hdigits hblank (hparts ▸ hnumber)
        have hinside : digits <:+: token.text := hparts ▸ (List.suffix_append minus digits).isInfix
        exact hread ▸ .numeral _ (hinside.trans (hshaped.inside (Or.inr hkind))) hdigits hlong

omit [Host] in
theorem exists_refused_unclosed (outer : List Level) (token : Token) :
    ∃ reason, unclosed outer token = .refused reason token.position := by
  rw [unclosed]
  split
  · exact ⟨_, rfl⟩
  · exact ⟨_, rfl⟩

omit [Host] in
/-- After an operand a token is read, or refused where it starts. -/
theorem readAfter_eq_error {operand : Expression} {comparable : Bool} {level : Level}
    {outer : List Level} {token : Token} {fault : Fault}
    (h : readAfter operand comparable level outer token = .error fault) :
    ∃ reason, fault = .refused reason token.position := by
  obtain ⟨reason, hrefused⟩ := exists_refused_unclosed outer token
  have hunclosed : Except.error (unclosed outer token) = (.error fault : Except Fault State) →
      ∃ reason, fault = .refused reason token.position :=
    fun heq => ⟨reason, (Except.error.inj heq).symm.trans hrefused⟩
  unfold readAfter at h
  split at h
  · split at h
    · cases h
    · exact hunclosed h
  · split at h
    · cases h
    · split at h
      · cases h
      · exact hunclosed h
  · split at h
    · split at h
      · cases h
      · exact hunclosed h
    · exact ⟨_, (Except.error.inj h).symm⟩
  · exact hunclosed h

/-- Where an operand is awaited, a token is read, or refused where it starts, or has no value. -/
theorem readOperand_eq_error {level : Level} {outer : List Level} {token : Token} {fault : Fault}
    (h : readOperand level outer token = .error fault) :
    (∃ reason, fault = .refused reason token.position) ∨ ValueFault token fault := by
  have hrefused : Except.error (unexpected token) = (.error fault : Except Fault State) →
      ∃ reason, fault = .refused reason token.position :=
    fun heq => ⟨_, (Except.error.inj heq).symm⟩
  unfold readOperand at h
  split at h
  · split at h
    · cases h
    · exact Or.inl (hrefused h)
  · split at h
    · cases h
    · split at h
      · cases h
      · exact Or.inl (hrefused h)
  · rename_i hkind
    cases hread : readText token with
    | ok e => simp [hread, Except.map] at h
    | error valueFault =>
      simp only [hread, Except.map, Except.error.injEq] at h
      exact Or.inr (Or.inl ⟨hkind, h ▸ hread⟩)
  · rename_i hkind
    cases hread : readNumber token with
    | ok e => simp [hread, Except.map] at h
    | error valueFault =>
      simp only [hread, Except.map, Except.error.injEq] at h
      exact Or.inr (Or.inr ⟨hkind, h ▸ hread⟩)
  · cases h
  · exact Or.inl (hrefused h)
  · exact Or.inl ⟨_, (Except.error.inj h).symm⟩

/-- A token is read, or refused where it starts, or has no value. -/
theorem State.step_eq_error {state : State} {token : Token} {fault : Fault}
    (h : state.step token = .error fault) :
    (∃ reason, fault = .refused reason token.position) ∨ ValueFault token fault := by
  cases state with
  | awaiting level outer => exact readOperand_eq_error h
  | holding operand comparable level outer => exact Or.inl (readAfter_eq_error h)

omit [Host] in
theorem State.finish_eq_error {state : State} {last : Token} {fault : Fault}
    (h : state.finish last = .error fault) :
    ∃ reason, fault = .refused reason last.position := by
  unfold State.finish at h
  split at h
  · exact ⟨_, (Except.error.inj h).symm⟩
  · cases h
  · exact ⟨_, (Except.error.inj h).symm⟩

variable {room : Nat}

/-- A token is taken if it is read and there is room for what is under way then. -/
theorem State.take_eq_ok {state next : State} {token : Token} :
    state.take room token = .ok next ↔ state.step token = .ok next ∧ next.depth ≤ room := by
  rw [State.take]
  cases hstep : state.step token with
  | error fault => simp
  | ok reached =>
    simp only [Except.ok.injEq]
    split
    · rename_i hdeep
      refine ⟨fun h => (nomatch h), fun ⟨hnext, hroom⟩ => ?_⟩
      subst hnext
      exact absurd hdeep (Nat.not_lt.mpr hroom)
    · rename_i hroom
      refine ⟨fun h => ?_, fun ⟨hnext, _⟩ => hnext ▸ rfl⟩
      obtain rfl := Except.ok.inj h
      exact ⟨rfl, Nat.not_lt.mp hroom⟩

/-- A token that is not taken is not read, or leads too deep. -/
theorem State.take_eq_error {state : State} {token : Token} {fault : Fault} :
    state.take room token = .error fault ↔
      state.step token = .error fault ∨
        fault = .tooDeep ∧ ∃ next, state.step token = .ok next ∧ room < next.depth := by
  rw [State.take]
  cases hstep : state.step token with
  | error stepFault => simp
  | ok reached =>
    simp only [Except.ok.injEq, reduceCtorEq, false_or, exists_eq_left']
    split
    · rename_i hdeep
      exact ⟨fun h => ⟨(Except.error.inj h).symm, hdeep⟩, fun h => h.1 ▸ rfl⟩
    · rename_i hroom
      exact ⟨fun h => (nomatch h), fun h => absurd h.2 hroom⟩

/-- Reading stops with a refusal, or for want of room, or with a fault with the value of a token. -/
theorem State.read_eq_error {state : State} {tokens : List Token} {fault : Fault}
    (h : state.read room tokens = .error fault) :
    (∃ reason position, fault = .refused reason position) ∨ fault = .tooDeep ∨
      ∃ token ∈ tokens, ValueFault token fault := by
  induction tokens generalizing state with
  | nil =>
    obtain ⟨reason, hrefused⟩ := State.finish_eq_error h
    exact Or.inl ⟨reason, _, hrefused⟩
  | cons token rest ih =>
    rw [State.read] at h
    split at h
    · obtain ⟨reason, hrefused⟩ := State.finish_eq_error h
      exact Or.inl ⟨reason, _, hrefused⟩
    · cases htake : state.take room token with
      | ok next =>
        simp only [htake] at h
        rcases ih h with hrefused | hdeep | ⟨later, hlater, hvalue⟩
        · exact Or.inl hrefused
        · exact Or.inr (Or.inl hdeep)
        · exact Or.inr (Or.inr ⟨later, List.mem_cons_of_mem token hlater, hvalue⟩)
      | error takeFault =>
        simp only [htake, Except.error.injEq] at h
        subst h
        rcases State.take_eq_error.mp htake with hstep | ⟨hdeep, -⟩
        · rcases State.step_eq_error hstep with ⟨reason, hrefused⟩ | hvalue
          · exact Or.inl ⟨reason, _, hrefused⟩
          · exact Or.inr (Or.inr ⟨token, List.mem_cons_self, hvalue⟩)
        · exact Or.inr (Or.inl hdeep)

/-- **An expression that cannot be read** is refused, or is nested too deeply, or has a literal
without value in it. -/
theorem read_eq_error {t : Text} {fault : Fault} (h : read room t = .error fault) :
    (∃ reason position, fault = .refused reason position) ∨ fault = .tooDeep ∨
      BadLiteral t fault := by
  rw [read] at h
  cases hscan : Token.scan t with
  | error scanFault =>
    simp only [hscan, Except.error.injEq] at h
    exact Or.inl ⟨_, _, h.symm⟩
  | ok tokens =>
    simp only [hscan] at h
    unfold ofTokens at h
    split at h
    · exact Or.inl ⟨_, _, (Except.error.inj h).symm⟩
    · split at h
      · exact Or.inl ⟨_, _, (Except.error.inj h).symm⟩
      · rcases State.read_eq_error h with hrefused | hdeep | ⟨token, htoken, hvalue⟩
        · exact Or.inl hrefused
        · exact Or.inr (Or.inl hdeep)
        · exact Or.inr (Or.inr (hvalue.badLiteral (Token.shaped_of_scanFrom hscan token htoken)))

end Expression
end Stencil
