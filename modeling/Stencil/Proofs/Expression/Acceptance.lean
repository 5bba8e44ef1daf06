import Mathlib
import Stencil.Proofs.Expression.Derivation

/-! # The texts that are expressions

A text that can be cut into tokens, and whose literals have values, is read exactly if its tokens
before the end follow the grammar, and as the expression of their one derivation
(`read_iff_derivation`); any other is refused.  Reading goes down for each parenthesis and each
`not`, and gives up where there is no room for the height of the derivation: that bound is the only
thing that stands between the grammar and the reader, and it does (`read_nested_tooDeep`).
-/

namespace Stencil

namespace Token

/-! ## The tokens of a text -/

theorem first?_ne_finish {t : Text} {kind : Kind} {n : Nat} (h : first? t = some (kind, n)) :
    kind ≠ .finish := by
  obtain ⟨-, length, hmem, -⟩ := exists_class_of_first? h
  rintro rfl
  simp [classes] at hmem

theorem kind_ofLexeme_ne_finish {kind : Kind} (h : kind ≠ .finish) (lexeme : Text) (place : Nat) :
    (ofLexeme kind lexeme place).kind ≠ .finish := by
  rw [ofLexeme]
  split
  · exact Kind.noConfusion
  · exact h

/-- The tokens of a text end with its end, and only there. -/
theorem exists_body_of_scanFrom {place : Nat} {t : Text} {tokens : List Token}
    (h : scanFrom place t = .ok tokens) :
    ∃ body last, tokens = body ++ [last] ∧ last.kind = .finish ∧
      ∀ token ∈ body, token.kind ≠ .finish := by
  fun_induction scanFrom place t generalizing tokens with
  | case1 place =>
    obtain rfl := Except.ok.inj h
    exact ⟨[], _, rfl, rfl, List.forall_mem_nil _⟩
  | case2 place c rest hblank ih => exact ih h
  | case3 => cases h
  | case4 place c rest hblank kind n hfirst ih =>
    cases hmore : scanFrom (place + n) (rest.drop (n - 1)) with
    | error fault => simp [hmore, Except.map] at h
    | ok more =>
      simp only [hmore, Except.map, Except.ok.injEq] at h
      obtain ⟨body, last, rfl, hlast, hbody⟩ := ih hmore
      exact ⟨_ :: body, last, h.symm, hlast, List.forall_mem_cons.mpr
        ⟨kind_ofLexeme_ne_finish (first?_ne_finish hfirst) _ _, hbody⟩⟩

end Token

namespace Expression

/-! ## Reading a text -/

section

variable [Host]

theorem not_valueFault_of_leaf {token : Token} {e : Expression} (h : leaf? token = some e)
    (fault : Fault) : ¬ ValueFault token fault := by
  rintro (⟨hkind, hread⟩ | ⟨hkind, hread⟩)
  · simp [leaf?, hkind, hread, Except.toOption] at h
  · simp [leaf?, hkind, hread, Except.toOption] at h

theorem not_valueFault_of_kind {token : Token} (htext : token.kind ≠ .text)
    (hnumber : token.kind ≠ .number) (fault : Fault) : ¬ ValueFault token fault := by
  rintro (⟨hkind, -⟩ | ⟨hkind, -⟩)
  · exact htext hkind
  · exact hnumber hkind

/-- A token before the end that has a value if it is a literal. -/
def Valued (token : Token) : Prop := token.kind ≠ .finish ∧ ∀ fault, ¬ ValueFault token fault

theorem valued_keyword (word : String) (place : Nat) : Valued (keyword word place) :=
  ⟨Token.Kind.noConfusion, not_valueFault_of_kind Token.Kind.noConfusion Token.Kind.noConfusion⟩

theorem valued_parenthesis (c : Char) (place : Nat) : Valued (parenthesis c place) :=
  ⟨Token.Kind.noConfusion, not_valueFault_of_kind Token.Kind.noConfusion Token.Kind.noConfusion⟩

theorem valued_sign (c : Comparison) (place : Nat) : Valued (sign c place) :=
  ⟨Token.Kind.noConfusion, not_valueFault_of_kind Token.Kind.noConfusion Token.Kind.noConfusion⟩

/-- The literals of a phrase have values, and none of its tokens is the end. -/
theorem Phrase.valued {rank : Rank} (p : Phrase rank) : ∀ token ∈ p.tokens, Valued token := by
  induction p with
  | leaf token e h =>
    intro token' htoken
    obtain rfl := List.mem_singleton.mp htoken
    refine ⟨fun hkind => ?_, not_valueFault_of_leaf h⟩
    simp [leaf?, hkind] at h
  | group opening inner closing ih =>
    simpa [tokens, or_imp, forall_and, valued_parenthesis] using ih
  | alone p ih | plain p ih | single p ih | one p ih => exact ih
  | not place p ih => simpa [tokens, valued_keyword] using ih
  | compare l c place r ihl ihr =>
    simpa [tokens, or_imp, forall_and, valued_sign] using And.intro ihl ihr
  | and l place r ihl ihr | or l place r ihl ihr =>
    simpa [tokens, or_imp, forall_and, valued_keyword] using And.intro ihl ihr

/-- The literals among the tokens of a phrase and the end have values. -/
theorem Phrase.not_valueFault {rank : Rank} (p : Phrase rank) {last : Token}
    (hlast : last.kind = .finish) :
    ∀ token ∈ p.tokens ++ [last], ∀ fault, ¬ ValueFault token fault := by
  intro token htoken
  rcases List.mem_append.mp htoken with hin | hend
  · exact (p.valued token hin).2
  · rw [List.mem_singleton.mp hend]
    exact not_valueFault_of_kind (by simp [hlast]) (by simp [hlast])

variable {room : Nat}

/-- Where the tokens of a text follow the grammar, only the bound on nesting is in the way. -/
theorem read_phrase {t : Text} {last : Token} (p : Phrase .expression)
    (hscan : Token.scan t = .ok (p.tokens ++ [last])) (hlast : last.kind = .finish) :
    read room t = if p.height ≤ room then .ok p.expression else .error .tooDeep := by
  rw [read, hscan]
  exact ofTokens_phrase room p (fun token htoken => (p.valued token htoken).1) hlast

/-- Where they do not, and every literal has a value, the text is refused unless that bound is met
first. -/
theorem read_of_not_phrase {t : Text} {body : List Token} {last : Token}
    (hscan : Token.scan t = .ok (body ++ [last])) (hbody : ∀ token ∈ body, token.kind ≠ .finish)
    (hlast : last.kind = .finish)
    (hvalues : ∀ token ∈ body ++ [last], ∀ fault, ¬ ValueFault token fault)
    (h : ¬ ∃ p : Phrase .expression, p.tokens = body) :
    (∃ reason position, read room t = .error (.refused reason position)) ∨
      read room t = .error .tooDeep ∧ room < State.start.peak body := by
  rw [read, hscan]
  simp only
  cases body with
  | nil =>
    rw [List.nil_append, ofTokens, if_pos hlast]
    exact Or.inl ⟨_, _, rfl⟩
  | cons token rest =>
    cases hread : ofTokens room (token :: rest ++ [last]) with
    | ok e =>
      obtain ⟨p, hp, -⟩ := (ofTokens_eq_ok_iff hbody hlast).mp hread
      exact absurd ⟨p, hp⟩ h
    | error fault =>
      rw [List.cons_append, ofTokens, if_neg (hbody token List.mem_cons_self)] at hread
      rcases State.read_eq_error hread with ⟨reason, position, rfl⟩ | rfl | ⟨later, hlater, hvalue⟩
      · exact Or.inl ⟨reason, position, rfl⟩
      · exact Or.inr ⟨rfl, State.lt_peak_of_read hbody hlast hread⟩
      · exact absurd hvalue (hvalues later hlater fault)

/-- **The reader accepts the grammar.** For a text that can be cut into tokens whose literals have
values: it is read as an expression exactly if its tokens before the end have a derivation for that
expression and there is room for its height; what has a derivation that is higher fails for that
reason; what has none is refused, unless the reader gets deeper than there is room before that
shows; and no row of tokens has two derivations. -/
theorem read_iff_derivation (room : Nat) (t : Text) (tokens : List Token)
    (hscan : Token.scan t = .ok tokens)
    (hvalues : ∀ token ∈ tokens, ∀ fault, ¬ ValueFault token fault) :
    ∃ body last, tokens = body ++ [last] ∧ last.kind = .finish ∧
      (∀ token ∈ body, token.kind ≠ .finish) ∧
      (∀ e, read room t = .ok e ↔
        ∃ p : Phrase .expression, p.tokens = body ∧ p.expression = e ∧ p.height ≤ room) ∧
      (∀ p : Phrase .expression, p.tokens = body → room < p.height →
        read room t = .error .tooDeep) ∧
      ((¬ ∃ p : Phrase .expression, p.tokens = body) →
        (∃ reason position, read room t = .error (.refused reason position)) ∨
          read room t = .error .tooDeep ∧ room < State.start.peak body) ∧
      ∀ p q : Phrase .expression, p.tokens = body → q.tokens = body → p = q := by
  obtain ⟨body, last, rfl, hlast, hbody⟩ := Token.exists_body_of_scanFrom hscan
  refine ⟨body, last, rfl, hlast, hbody, fun e => ?_, fun p hp hdeep => ?_,
    read_of_not_phrase hscan hbody hlast hvalues,
    fun p q hp hq => phrase_eq_of_tokens (hp.trans hq.symm)⟩
  · rw [read, hscan]
    exact ofTokens_eq_ok_iff hbody hlast
  · subst hp
    rw [read_phrase p hscan hlast, if_neg (Nat.not_le.mpr hdeep)]

end

attribute [local instance] Host.usual

/-- The derivation of `not $a.b or (1 < 2)`. -/
def samplePhrase : Phrase .expression :=
  .or
    (.one (.single (.not 0 (.plain (.alone
      (.leaf ⟨.path, Text.ofString "$a.b", 4⟩ (.path ['a'] [['b']]) (by cbv)))))))
    9
    (.single (.plain (.alone (.group 12 (.one (.single (.plain (.compare
      (.leaf ⟨.number, ['1'], 13⟩ (.literal (.int 1)) (by cbv)) .less 15
      (.leaf ⟨.number, ['2'], 17⟩ (.literal (.int 2)) (by cbv)))))) 18))))

theorem read_iff_derivation_sample :
    Token.scan (Text.ofString "not $a.b or (1 < 2)") =
        .ok (samplePhrase.tokens ++ [⟨.finish, [], 19⟩]) ∧
      read Host.reading (Text.ofString "not $a.b or (1 < 2)") = .ok samplePhrase.expression ∧
      ∀ q : Phrase .expression, q.tokens = samplePhrase.tokens → q = samplePhrase := by
  have hscan : Token.scan (Text.ofString "not $a.b or (1 < 2)") =
      .ok (samplePhrase.tokens ++ [⟨.finish, [], 19⟩]) := by
    cbv
  obtain ⟨body, last, htokens, -, -, hread, -, -, hunique⟩ :=
    read_iff_derivation Host.reading _ _ hscan (samplePhrase.not_valueFault rfl)
  obtain rfl : samplePhrase.tokens = body := (List.append_inj' htokens rfl).1
  exact ⟨hscan, (hread _).mpr ⟨_, rfl, rfl, by decide⟩, fun q hq => hunique q _ hq rfl⟩

/-! ## A text that is nested too deeply -/

/-- The number one in parentheses. -/
def nested (n : Nat) : Text := List.replicate n '(' ++ '1' :: List.replicate n ')'

/-- A row of parentheses from a position on. -/
def parentheses (c : Char) (place n : Nat) : List Token :=
  (List.range' place n).map (parenthesis c)

/-- The tokens of the number one in parentheses, from a position on. -/
def nestedTokens (place n : Nat) : List Token :=
  parentheses '(' place n ++ ⟨.number, ['1'], place + n⟩ :: parentheses ')' (place + n + 1) n

theorem first?_parenthesis {c : Char} (hc : c = '(' ∨ c = ')') (rest : Text) :
    Token.first? (c :: rest) = some (.parenthesis, 1) := by
  have hliteral : Token.literalLength (c :: rest) = 0 := by
    rcases hc with rfl | rfl <;> rfl
  have hnumber : Token.numberLength (c :: rest) = 0 := by
    have hdigit : Text.isDecimal c = false := by rcases hc with rfl | rfl <;> decide
    rcases hc with rfl | rfl <;>
      simp [Token.numberLength, Token.minusLength, Token.run, hdigit]
  have hcomparison : Token.comparisonLength (c :: rest) = 0 := by
    rcases hc with rfl | rfl <;> rfl
  have hparenthesis : Token.parenthesisLength (c :: rest) = 1 := by
    rcases hc with rfl | rfl <;> rfl
  simp [Token.first?, Token.classes, List.findSome?, hliteral, hnumber, hcomparison, hparenthesis]

theorem scanFrom_parenthesis {c : Char} (hc : c = '(' ∨ c = ')') (place : Nat) (rest : Text) :
    Token.scanFrom place (c :: rest) =
      (Token.scanFrom (place + 1) rest).map (parenthesis c place :: ·) := by
  have hblank : Text.isBlank c = false := by rcases hc with rfl | rfl <;> decide
  rw [Token.scanFrom, hblank, first?_parenthesis hc]
  simp [Token.ofLexeme, parenthesis]

/-- A row of parentheses is cut into its characters. -/
theorem scanFrom_parentheses {c : Char} (hc : c = '(' ∨ c = ')') (place n : Nat) (rest : Text) :
    Token.scanFrom place (List.replicate n c ++ rest) =
      (Token.scanFrom (place + n) rest).map (parentheses c place n ++ ·) := by
  induction n generalizing place with
  | zero =>
    cases h : Token.scanFrom place rest <;> simp [h, parentheses, Except.map]
  | succ n ih =>
    rw [List.replicate_succ, List.cons_append, scanFrom_parenthesis hc, ih (place + 1),
      Nat.add_right_comm]
    cases Token.scanFrom (place + n + 1) rest <;>
      simp [parentheses, Except.map, List.range'_succ]

theorem first?_one (n : Nat) :
    Token.first? ('1' :: List.replicate n ')') = some (.number, 1) := by
  have hnumber : Token.numberLength ('1' :: List.replicate n ')') = 1 := by
    cases n with
    | zero => decide
    | succ n => rfl
  have hliteral : Token.literalLength ('1' :: List.replicate n ')') = 0 := rfl
  simp [Token.first?, Token.classes, List.findSome?, hliteral, hnumber]

theorem scan_nested (n : Nat) :
    Token.scan (nested n) = .ok (nestedTokens 0 n ++ [⟨.finish, [], n + 1 + n⟩]) := by
  have hone : Token.scanFrom n ('1' :: List.replicate n ')') =
      (Token.scanFrom (n + 1) (List.replicate n ')')).map (⟨.number, ['1'], n⟩ :: ·) := by
    have hblank : Text.isBlank '1' = false := by decide
    rw [Token.scanFrom, hblank, first?_one]
    simp [Token.ofLexeme]
  have hclose := scanFrom_parentheses (Or.inr rfl : ')' = '(' ∨ ')' = ')') (n + 1) n []
  rw [List.append_nil, Token.scanFrom] at hclose
  rw [Token.scan, nested, scanFrom_parentheses (Or.inl rfl), Nat.zero_add, hone, hclose]
  simp [nestedTokens, Except.map]

/-- The derivation of the number one in parentheses. -/
def nestedPhrase : (place n : Nat) → Phrase .operand
  | place, 0 => .leaf ⟨.number, ['1'], place⟩ (.literal (.int 1)) (by cbv)
  | place, n + 1 =>
    .group place (.one (.single (.plain (.alone (nestedPhrase (place + 1) n)))))
      (place + 1 + n + 1 + n)

theorem tokens_nestedPhrase (place n : Nat) :
    (nestedPhrase place n).tokens = nestedTokens place n := by
  induction n generalizing place with
  | zero => rfl
  | succ n ih =>
    have hinner : (nestedPhrase place (n + 1)).tokens = parenthesis '(' place ::
        ((nestedPhrase (place + 1) n).tokens ++ [parenthesis ')' (place + 1 + n + 1 + n)]) := rfl
    have hplace : place + (n + 1) = place + 1 + n := Nat.add_right_comm place n 1
    have hopen : parentheses '(' place (n + 1) =
        parenthesis '(' place :: parentheses '(' (place + 1) n := by
      simp [parentheses, List.range'_succ]
    have hclose : parentheses ')' (place + 1 + n + 1) (n + 1) =
        parentheses ')' (place + 1 + n + 1) n ++ [parenthesis ')' (place + 1 + n + 1 + n)] := by
      simp [parentheses, List.range'_concat]
    rw [hinner, ih, nestedTokens, nestedTokens, hplace, hopen, hclose]
    simp

theorem height_nestedPhrase (place n : Nat) :
    (nestedPhrase place n).height = callsPerGroup * n := by
  induction n generalizing place with
  | zero => rfl
  | succ n ih =>
    have hinner : (nestedPhrase place (n + 1)).height =
        callsPerGroup + (nestedPhrase (place + 1) n).height := rfl
    rw [hinner, ih, Nat.mul_succ, Nat.add_comm]

/-- **Five thousand parentheses** around the number one follow the grammar, but are not read. -/
theorem read_nested_tooDeep :
    ∃ body last, Token.scan (nested 5000) = .ok (body ++ [last]) ∧ last.kind = .finish ∧
      (∀ token ∈ body ++ [last], ∀ fault, ¬ ValueFault token fault) ∧
      (∃ p : Phrase .expression, p.tokens = body) ∧
      read Host.reading (nested 5000) = .error .tooDeep := by
  let p : Phrase .expression := .one (.single (.plain (.alone (nestedPhrase 0 5000))))
  have hp : p.tokens = nestedTokens 0 5000 := tokens_nestedPhrase 0 5000
  have hscan : Token.scan (nested 5000) = .ok (p.tokens ++ [⟨.finish, [], 5000 + 1 + 5000⟩]) := by
    rw [hp]
    exact scan_nested 5000
  have hheight : p.height = callsPerGroup * 5000 := height_nestedPhrase 0 5000
  refine ⟨p.tokens, _, hscan, rfl, p.not_valueFault rfl, ⟨p, rfl⟩, ?_⟩
  rw [read_phrase p hscan rfl, hheight, if_neg (by decide)]

end Expression
end Stencil
