import Stencil.Proofs.Expression.Literals

/-! # Derivations of expressions

The grammar of expressions is stated apart from the reader: a `Phrase` is a derivation tree of one
of its five ranks, with the row of tokens at its leaves and the expression that it spells.  The
repetitions of the grammar grow at their right end, so that a chain of `and` or of `or` associates
to the left.

The reader follows the grammar in both directions.  Reading the tokens of a phrase leads to the
state in which the phrase has been read, and down as far as the phrase is high (`reaches_of_phrase`,
by induction on the tree); and what stands between the beginning and a state is always the leaves of
phrases that wait for their right neighbour (`State.Written`), which a step keeps
(`written_of_step`).  So a row of tokens is read exactly if it is the leaves of a phrase for which
there is room (`ofTokens_eq_ok_iff`); and as the expression of a phrase shows its rank and the
number of its tokens, there is one such phrase at most (`phrase_eq_of_tokens`).
-/

namespace Stencil

theorem Comparison.eq_sign_of_ofSign? {t : Text} {c : Comparison}
    (h : Comparison.ofSign? t = some c) : t = c.sign := by
  rw [ofSign?] at h
  have hsign := List.find?_some h
  exact (eq_of_beq hsign).symm

theorem Comparison.ofSign?_sign (c : Comparison) : Comparison.ofSign? c.sign = some c := by
  cases c <;> rfl

namespace Expression

/-! ## Ranks and phrases -/

/-- The nonterminals of the grammar. -/
inductive Rank where
  | operand
  | comparison
  | negation
  | conjunction
  | expression
  deriving DecidableEq

namespace Rank

/-- How loosely a rank binds. -/
def height : Rank → Nat
  | .operand => 0
  | .comparison => 1
  | .negation => 2
  | .conjunction => 3
  | .expression => 4

end Rank

/-- A keyword at a position. -/
def keyword (word : String) (place : Nat) : Token := ⟨.keyword, Text.ofString word, place⟩

/-- A parenthesis at a position. -/
def parenthesis (c : Char) (place : Nat) : Token := ⟨.parenthesis, [c], place⟩

/-- A comparison sign at a position. -/
def sign (c : Comparison) (place : Nat) : Token := ⟨.comparison, c.sign, place⟩

theorem eq_keyword {token : Token} {word : String} (hkind : token.kind = .keyword)
    (htext : token.text = Text.ofString word) : token = keyword word token.position := by
  cases token
  simp_all [keyword]

theorem eq_parenthesis {token : Token} {c : Char} (hkind : token.kind = .parenthesis)
    (htext : token.text = [c]) : token = parenthesis c token.position := by
  cases token
  simp_all [parenthesis]

theorem eq_sign {token : Token} {c : Comparison} (hkind : token.kind = .comparison)
    (htext : token.text = c.sign) : token = sign c token.position := by
  cases token
  simp_all [sign]

variable [Host]

/-- The expression that a token is on its own: a literal or a path. -/
def leaf? (token : Token) : Option Expression :=
  match token.kind with
  | .text => (readText token).toOption
  | .number => (readNumber token).toOption
  | .path => some (readPath token.text)
  | .keyword => (constant? token.text).map .literal
  | _ => none

/-- A derivation of a row of tokens from a rank of the grammar. -/
inductive Phrase : Rank → Type where
  /-- An operand is a literal or a path, -/
  | leaf (token : Token) (e : Expression) (h : leaf? token = some e) : Phrase .operand
  /-- or an expression in parentheses. -/
  | group (opening : Nat) (inner : Phrase .expression) (closing : Nat) : Phrase .operand
  /-- A comparison is an operand, -/
  | alone (p : Phrase .operand) : Phrase .comparison
  /-- or two with a sign between them. -/
  | compare (l : Phrase .operand) (c : Comparison) (place : Nat) (r : Phrase .operand) :
      Phrase .comparison
  /-- A negation is a comparison, -/
  | plain (p : Phrase .comparison) : Phrase .negation
  /-- or a negation behind `not`. -/
  | not (place : Nat) (p : Phrase .negation) : Phrase .negation
  /-- A conjunction is a negation, -/
  | single (p : Phrase .negation) : Phrase .conjunction
  /-- or a conjunction with one more negation behind `and`. -/
  | and (l : Phrase .conjunction) (place : Nat) (r : Phrase .negation) : Phrase .conjunction
  /-- An expression is a conjunction, -/
  | one (p : Phrase .conjunction) : Phrase .expression
  /-- or an expression with one more conjunction behind `or`. -/
  | or (l : Phrase .expression) (place : Nat) (r : Phrase .conjunction) : Phrase .expression

namespace Phrase

variable {rank : Rank}

/-- The tokens at the leaves of a phrase. -/
def tokens : {rank : Rank} → Phrase rank → List Token
  | _, .leaf token _ _ => [token]
  | _, .group opening inner closing =>
    parenthesis '(' opening :: (inner.tokens ++ [parenthesis ')' closing])
  | _, .alone p => p.tokens
  | _, .compare l c place r => l.tokens ++ sign c place :: r.tokens
  | _, .plain p => p.tokens
  | _, .not place p => keyword "not" place :: p.tokens
  | _, .single p => p.tokens
  | _, .and l place r => l.tokens ++ keyword "and" place :: r.tokens
  | _, .one p => p.tokens
  | _, .or l place r => l.tokens ++ keyword "or" place :: r.tokens

/-- The expression that a phrase spells. -/
def expression : {rank : Rank} → Phrase rank → Expression
  | _, .leaf _ e _ => e
  | _, .group _ inner _ => .group inner.expression
  | _, .alone p => p.expression
  | _, .compare l c _ r => .compare c l.expression r.expression
  | _, .plain p => p.expression
  | _, .not _ p => .negation p.expression
  | _, .single p => p.expression
  | _, .and l _ r => .both l.expression r.expression
  | _, .one p => p.expression
  | _, .or l _ r => .either l.expression r.expression

/-- The calls under way inside one another on account of the parentheses and of the `not`s of a
phrase. -/
def height : {rank : Rank} → Phrase rank → Nat
  | _, .leaf _ _ _ => 0
  | _, .group _ inner _ => callsPerGroup + inner.height
  | _, .alone p => p.height
  | _, .compare l _ _ r => max l.height r.height
  | _, .plain p => p.height
  | _, .not _ p => 1 + p.height
  | _, .single p => p.height
  | _, .and l _ r => max l.height r.height
  | _, .one p => p.height
  | _, .or l _ r => max l.height r.height

end Phrase

/-! ## Steps on tokens of the grammar -/

/-- What an operand leaves the reader with is one more operand, a literal or a path. -/
theorem step_leaf {token : Token} {e : Expression} (h : leaf? token = some e) (level : Level)
    (outer : List Level) :
    (State.awaiting level outer).step token = .ok (.supply e level outer) := by
  rw [State.step, readOperand]
  rw [leaf?] at h
  split at h
  · cases hread : readText token with
    | error fault => simp [hread, Except.toOption] at h
    | ok operand =>
      obtain rfl : operand = e := by simpa [hread, Except.toOption] using h
      simp [*, Except.map]
  · cases hread : readNumber token with
    | error fault => simp [hread, Except.toOption] at h
    | ok operand =>
      obtain rfl : operand = e := by simpa [hread, Except.toOption] using h
      simp [*, Except.map]
  · simp_all
  · obtain ⟨constant, hconstant, rfl⟩ := Option.map_eq_some_iff.mp h
    have hnot : token.text ≠ Text.ofString "not" := by
      intro heq
      have hnone : constant? (Text.ofString "not") = none := by decide
      simp [heq, hnone] at hconstant
    simp [*]
  · cases h

/-- The states that reading a row of tokens passes through, to the last. -/
def State.through (state : State) (tokens : List Token) : Except Fault State :=
  tokens.foldlM State.step state

/-- The greatest depth of the states that reading a row of tokens passes through, up to a token that
is not read. -/
def State.peak (state : State) : List Token → Nat
  | [] => state.depth
  | token :: rest =>
    match state.step token with
    | .ok next => max state.depth (next.peak rest)
    | .error _ => state.depth

namespace State

theorem through_cons {state next last : State} {token : Token} {rest : List Token}
    (hstep : state.step token = .ok next) (hrest : next.through rest = .ok last) :
    state.through (token :: rest) = .ok last := by
  rw [through, List.foldlM_cons, hstep]
  exact hrest

theorem through_append {state next last : State} {front back : List Token}
    (hfront : state.through front = .ok next) (hback : next.through back = .ok last) :
    state.through (front ++ back) = .ok last := by
  rw [through] at hfront
  rw [through, List.foldlM_append, hfront]
  exact hback

theorem peak_cons {state next : State} {token : Token} (rest : List Token)
    (hstep : state.step token = .ok next) :
    state.peak (token :: rest) = max state.depth (next.peak rest) := by
  rw [peak, hstep]

theorem depth_le_peak (state : State) (tokens : List Token) : state.depth ≤ state.peak tokens := by
  cases tokens with
  | nil => exact Nat.le_refl _
  | cons token rest =>
    rw [peak]
    split
    · exact Nat.le_max_left _ _
    · exact Nat.le_refl _

theorem peak_append {state next : State} {front : List Token} (back : List Token)
    (hfront : state.through front = .ok next) :
    state.peak (front ++ back) = max (state.peak front) (next.peak back) := by
  induction front generalizing state with
  | nil =>
    obtain rfl : state = next := Except.ok.inj hfront
    exact (Nat.max_eq_right (state.depth_le_peak back)).symm
  | cons token rest ih =>
    cases hstep : state.step token with
    | error fault => simp [through, List.foldlM_cons, hstep, bind, Except.bind] at hfront
    | ok middle =>
      rw [through, List.foldlM_cons, hstep] at hfront
      rw [List.cons_append, peak_cons _ hstep, peak_cons _ hstep, ih hfront, Nat.max_assoc]

variable {room : Nat}

/-- Reading goes on from where it has passed through, if there is room for all that it has passed;
otherwise it gives up. -/
theorem read_append {state next : State} {front : List Token} (back : List Token)
    (hroom : state.depth ≤ room) (hfront : ∀ token ∈ front, token.kind ≠ .finish)
    (h : state.through front = .ok next) :
    state.read room (front ++ back) =
      if state.peak front ≤ room then next.read room back else .error .tooDeep := by
  induction front generalizing state with
  | nil =>
    obtain rfl : state = next := Except.ok.inj h
    exact (if_pos hroom).symm
  | cons token rest ih =>
    obtain ⟨htoken, hrest⟩ := List.forall_mem_cons.mp hfront
    rw [List.cons_append, read, if_neg htoken]
    cases hstep : state.step token with
    | error fault => simp [through, List.foldlM_cons, hstep, bind, Except.bind] at h
    | ok middle =>
      rw [through, List.foldlM_cons, hstep] at h
      rw [take, hstep, peak_cons _ hstep]
      by_cases hmiddle : room < middle.depth
      · have hpeak := middle.depth_le_peak rest
        rw [if_neg (show ¬max state.depth (middle.peak rest) ≤ room by omega)]
        simp [hmiddle]
      · have hsame : (max state.depth (middle.peak rest) ≤ room) = (middle.peak rest ≤ room) :=
          propext ⟨fun hle => by omega, fun hle => by omega⟩
        simp only [hmiddle, if_false, hsame]
        exact ih (Nat.le_of_not_lt hmiddle) hrest h

/-- Reading up to the end is passing through the tokens before it. -/
theorem read_of_through {state next : State} {body : List Token} {last : Token}
    (hroom : state.depth ≤ room) (hbody : ∀ token ∈ body, token.kind ≠ .finish)
    (hlast : last.kind = .finish) (h : state.through body = .ok next) :
    state.read room (body ++ [last]) =
      if state.peak body ≤ room then next.finish last else .error .tooDeep := by
  rw [read_append _ hroom hbody h, read, if_pos hlast]

/-- The state that is reached is one of those that are passed through. -/
theorem depth_le_peak_of_through {state next : State} {tokens : List Token}
    (h : state.through tokens = .ok next) : next.depth ≤ state.peak tokens := by
  have hpeak := peak_append [] h
  rw [List.append_nil] at hpeak
  have hle : next.peak [] ≤ max (state.peak tokens) (next.peak []) := Nat.le_max_right _ _
  rwa [← hpeak] at hle

/-- A row of tokens in the midst of which a token leads on. -/
theorem peak_append_cons {state next middle : State} {front : List Token} {token : Token}
    (rest : List Token) (hfront : state.through front = .ok next)
    (hstep : next.step token = .ok middle) :
    state.peak (front ++ token :: rest) = max (state.peak front) (middle.peak rest) := by
  rw [peak_append _ hfront, peak_cons _ hstep, ← Nat.max_assoc,
    Nat.max_eq_left (depth_le_peak_of_through hfront)]

omit [Host] in
theorem depth_supply (operand : Expression) (level : Level) (outer : List Level) :
    (supply operand level outer).depth = (awaiting level outer).depth := by
  rw [supply]
  split
  · rfl
  · rfl

/-- Reading gives up only where it has got deeper than there is room. -/
theorem lt_peak_of_read {state : State} {body : List Token} {last : Token}
    (hbody : ∀ token ∈ body, token.kind ≠ .finish) (hlast : last.kind = .finish)
    (h : state.read room (body ++ [last]) = .error .tooDeep) : room < state.peak body := by
  induction body generalizing state with
  | nil =>
    rw [List.nil_append, read, if_pos hlast] at h
    obtain ⟨reason, hrefused⟩ := finish_eq_error h
    cases hrefused
  | cons token rest ih =>
    obtain ⟨htoken, hrest⟩ := List.forall_mem_cons.mp hbody
    rw [List.cons_append, read, if_neg htoken] at h
    cases hstep : state.step token with
    | error fault =>
      rw [take, hstep] at h
      obtain rfl := Except.error.inj h
      rcases step_eq_error hstep with ⟨reason, hrefused⟩ | ⟨-, hvalue⟩ | ⟨-, hvalue⟩
      · cases hrefused
      · rw [readText] at hvalue
        split at hvalue <;> cases hvalue
      · rw [readNumber] at hvalue
        split at hvalue
        · cases hvalue
        · split at hvalue <;> cases hvalue
    | ok middle =>
      rw [peak_cons _ hstep]
      rw [take, hstep] at h
      by_cases hmiddle : room < middle.depth
      · have hpeak := middle.depth_le_peak rest
        omega
      · simp only [hmiddle, if_false] at h
        have hpeak := ih hrest h
        omega

end State

/-! ## What follows the grammar is read -/

/-- A level at which a phrase of a rank can be awaited: nothing is pending that binds tighter than
the rank itself. -/
def Rank.Fits : Rank → Level → Prop
  | .operand, _ => True
  | .comparison, level => level.compared = none
  | .negation, level => level.compared = none
  | .conjunction, level => level.compared = none ∧ level.negations = 0 ∧ level.both = none
  | .expression, level => level = .empty

/-- The state in which a phrase of a rank has been read, where it has been awaited at a level: its
last operand is held, and together with what is pending to its left completes its expression. -/
def Rank.Reached (rank : Rank) (level : Level) (outer : List Level) (e : Expression)
    (state : State) : Prop :=
  match rank with
  | .operand => state = .supply e level outer
  | .comparison => ∃ comparable, state = .holding e comparable level outer
  | .negation => ∃ k operand comparable,
      state = .holding operand comparable { level with negations := level.negations + k } outer ∧
        Level.negate k operand = e
  | .conjunction => ∃ operand comparable inside, state = .holding operand comparable inside outer ∧
      inside.compared = none ∧ inside.either = level.either ∧ inside.conjunction operand = e
  | .expression => ∃ operand comparable inside, state = .holding operand comparable inside outer ∧
      inside.compared = none ∧ inside.expression operand = e

/-- **Reading the tokens of a phrase** leads to the state in which it has been read, and as far down
on the way as the phrase is high. -/
theorem reaches_of_phrase {rank : Rank} (p : Phrase rank) (level : Level) (outer : List Level)
    (hfits : rank.Fits level) :
    ∃ state, (State.awaiting level outer).through p.tokens = .ok state ∧
      rank.Reached level outer p.expression state ∧
        (State.awaiting level outer).peak p.tokens =
          (State.awaiting level outer).depth + p.height := by
  induction p generalizing level outer with
  | leaf token e h =>
    have hstep := step_leaf h level outer
    refine ⟨_, State.through_cons hstep rfl, rfl, ?_⟩
    rw [Phrase.tokens, State.peak_cons _ hstep, State.peak, State.depth_supply, Nat.max_self]
    rfl
  | group opening inner closing ih =>
    obtain ⟨_, hinner, ⟨operand, comparable, inside, rfl, -, he⟩, hpeak⟩ :=
      ih .empty (level :: outer) rfl
    have hopen : (State.awaiting level outer).step (parenthesis '(' opening) =
        .ok (.awaiting .empty (level :: outer)) := rfl
    have hclose : (State.holding operand comparable inside (level :: outer)).step
        (parenthesis ')' closing) =
          .ok (.supply (.group (inside.expression operand)) level outer) := rfl
    refine ⟨.supply (.group (inside.expression operand)) level outer, ?_, by rw [he]; rfl, ?_⟩
    · exact State.through_cons hopen (State.through_append hinner (State.through_cons hclose rfl))
    · have hdown : (State.awaiting .empty (level :: outer)).depth =
          (State.awaiting level outer).depth + callsPerGroup := by
        simp only [State.depth, outerDepth, Level.empty]
        omega
      rw [Phrase.tokens, State.peak_cons _ hopen, State.peak_append_cons _ hinner hclose, hpeak,
        hdown, State.peak, State.depth_supply, Phrase.height]
      omega
  | alone p ih =>
    obtain ⟨_, hp, rfl, hpeak⟩ := ih level outer trivial
    exact ⟨_, hp, ⟨true, by rw [State.supply, hfits]; rfl⟩, hpeak⟩
  | compare l c place r ihl ihr =>
    obtain ⟨_, hl, rfl, hpeakl⟩ := ihl level outer trivial
    obtain ⟨_, hr, rfl, hpeakr⟩ :=
      ihr { level with compared := some (l.expression, c) } outer trivial
    have hheld : State.supply l.expression level outer = .holding l.expression true level outer := by
      rw [State.supply, hfits]
    have hsign : (State.supply l.expression level outer).step (sign c place) =
        .ok (.awaiting { level with compared := some (l.expression, c) } outer) := by
      rw [hheld]
      simp [State.step, readAfter, sign, Comparison.ofSign?_sign]
    refine ⟨_, State.through_append hl (State.through_cons hsign hr), ⟨false, ?_⟩, ?_⟩
    · have hlevel : { level with compared := none } = level := by rw [← hfits]
      exact congrArg (State.holding _ false · outer) hlevel
    · rw [Phrase.tokens, State.peak_append_cons _ hl hsign, hpeakl, hpeakr, Phrase.height]
      exact Nat.add_max_add_left _ _ _
  | plain p ih =>
    obtain ⟨_, hp, ⟨comparable, rfl⟩, hpeak⟩ := ih level outer hfits
    exact ⟨_, hp, ⟨0, _, comparable, rfl, rfl⟩, hpeak⟩
  | not place p ih =>
    obtain ⟨_, hp, ⟨k, operand, comparable, rfl, he⟩, hpeak⟩ :=
      ih { level with negations := level.negations + 1 } outer hfits
    have hnot : (State.awaiting level outer).step (keyword "not" place) =
        .ok (.awaiting { level with negations := level.negations + 1 } outer) := by
      have hnone : level.compared = none := hfits
      simp [State.step, readOperand, keyword, hnone]
    refine ⟨_, State.through_cons hnot hp, ⟨k + 1, operand, comparable, ?_, congrArg _ he⟩, ?_⟩
    · rw [Nat.add_right_comm, Nat.add_assoc]
    · rw [Phrase.tokens, State.peak_cons _ hnot, hpeak, Phrase.height]
      simp only [State.depth]
      omega
  | single p ih =>
    obtain ⟨hcompared, hnegations, hboth⟩ := hfits
    obtain ⟨_, hp, ⟨k, operand, comparable, rfl, he⟩, hpeak⟩ := ih level outer hcompared
    refine ⟨_, hp, ⟨operand, comparable, _, rfl, hcompared, rfl, ?_⟩, hpeak⟩
    simpa [Level.conjunction, hnegations, hboth, Phrase.expression] using he
  | and l place r ihl ihr =>
    obtain ⟨_, hl, ⟨last, comparable', inside, rfl, hcompared, heither, hle⟩, hpeakl⟩ :=
      ihl level outer hfits
    obtain ⟨_, hr, ⟨k, operand, comparable, rfl, he⟩, hpeakr⟩ :=
      ihr ⟨inside.either, some l.expression, 0, none⟩ outer rfl
    have hand : (State.holding last comparable' inside outer).step (keyword "and" place) =
        .ok (.awaiting ⟨inside.either, some l.expression, 0, none⟩ outer) := by
      simp [State.step, readAfter, keyword, hle]
    refine ⟨_, State.through_append hl (State.through_cons hand hr), ⟨operand, comparable, _, rfl,
      rfl, heither, ?_⟩, ?_⟩
    · simp [Level.conjunction, he, Phrase.expression]
    · rw [Phrase.tokens, State.peak_append_cons _ hl hand, hpeakl, hpeakr, Phrase.height]
      simp only [State.depth, hfits.2.1]
      exact Nat.add_max_add_left _ _ _
  | one p ih =>
    obtain ⟨_, hp, ⟨operand, comparable, inside, rfl, hcompared, heither, he⟩, hpeak⟩ :=
      ih .empty outer ⟨rfl, rfl, rfl⟩
    obtain rfl : level = .empty := hfits
    refine ⟨_, hp, ⟨operand, comparable, inside, rfl, hcompared, ?_⟩, hpeak⟩
    rw [Level.expression, heither]
    exact he
  | or l place r ihl ihr =>
    obtain ⟨_, hl, ⟨last, comparable, inside, rfl, hcompared, hle⟩, hpeakl⟩ := ihl level outer hfits
    obtain ⟨_, hr, ⟨operand, comparable', outside, rfl, hnone, heither, he⟩, hpeakr⟩ :=
      ihr ⟨some l.expression, none, 0, none⟩ outer ⟨rfl, rfl, rfl⟩
    have hor : (State.holding last comparable inside outer).step (keyword "or" place) =
        .ok (.awaiting ⟨some l.expression, none, 0, none⟩ outer) := by
      have hword : Text.ofString "or" ≠ Text.ofString "and" := by decide
      simp [State.step, readAfter, keyword, hle, hword]
    refine ⟨_, State.through_append hl (State.through_cons hor hr), ⟨operand, comparable', outside,
      rfl, hnone, ?_⟩, ?_⟩
    · rw [Level.expression, heither, he]
      rfl
    · obtain rfl : level = .empty := hfits
      rw [Phrase.tokens, State.peak_append_cons _ hl hor, hpeakl, hpeakr, Phrase.height]
      exact Nat.add_max_add_left _ _ _

/-! ## What is read follows the grammar -/

/-- A row of tokens is the leaves of a phrase for an expression. -/
def Spells (rank : Rank) (tokens : List Token) (e : Expression) : Prop :=
  ∃ p : Phrase rank, p.tokens = tokens ∧ p.expression = e

/-- The tokens of a left side that waits behind a keyword; none if none waits. -/
def Waiting (rank : Rank) (word : String) (left : Option Expression) (tokens : List Token) : Prop :=
  match left with
  | none => tokens = []
  | some e => ∃ front place, Spells rank front e ∧ tokens = front ++ [keyword word place]

/-- The tokens of an operand that waits behind a comparison sign; none if none waits. -/
def Compared (left : Option (Expression × Comparison)) (tokens : List Token) : Prop :=
  match left with
  | none => tokens = []
  | some (e, c) => ∃ front place, Spells .operand front e ∧ tokens = front ++ [sign c place]

/-- The tokens that a level remembers, the loosest first. -/
def Level.Written (level : Level) (tokens : List Token) : Prop :=
  ∃ either both compared : List Token, ∃ places : List Nat,
    tokens = either ++ (both ++ (places.map (keyword "not") ++ compared)) ∧
      Waiting .expression "or" level.either either ∧ Waiting .conjunction "and" level.both both ∧
      places.length = level.negations ∧ Compared level.compared compared

/-- The tokens outside the innermost open parenthesis, the parenthesis included. -/
def Outside : List Level → List Token → Prop
  | [], tokens => tokens = []
  | level :: outer, tokens => ∃ front inside place, Outside outer front ∧ level.Written inside ∧
      tokens = front ++ (inside ++ [parenthesis '(' place])

/-- The tokens that lead to a state: those of the levels, and of the operand that is held. -/
def State.Written : State → List Token → Prop
  | .awaiting level outer, tokens => ∃ front inside, Outside outer front ∧ level.Written inside ∧
      tokens = front ++ inside
  | .holding operand comparable level outer, tokens => ∃ front inside last,
      Outside outer front ∧ level.Written inside ∧ level.compared = none ∧
        Spells (if comparable then .operand else .comparison) last operand ∧
          tokens = front ++ (inside ++ last)

theorem Level.written_empty : Level.empty.Written [] :=
  ⟨[], [], [], [], rfl, rfl, rfl, rfl, rfl⟩

theorem State.written_start : State.start.Written [] :=
  ⟨[], [], rfl, Level.written_empty, rfl⟩

/-- An operand that is held is a comparison. -/
theorem Spells.comparison {comparable : Bool} {last : List Token} {e : Expression}
    (h : Spells (if comparable then .operand else .comparison) last e) :
    Spells .comparison last e := by
  cases comparable with
  | false => exact h
  | true =>
    obtain ⟨p, hp, he⟩ := h
    exact ⟨.alone p, hp, he⟩

/-- A comparison behind a number of `not` is a negation. -/
theorem Spells.negate {last : List Token} {e : Expression} (h : Spells .comparison last e)
    (places : List Nat) :
    Spells .negation (places.map (keyword "not") ++ last) (Level.negate places.length e) := by
  induction places with
  | nil =>
    obtain ⟨p, hp, he⟩ := h
    exact ⟨.plain p, hp, he⟩
  | cons place places ih =>
    obtain ⟨p, hp, he⟩ := ih
    exact ⟨.not place p, congrArg _ hp, congrArg _ he⟩

/-- A negation completes the conjunction that waits for it. -/
theorem Waiting.conjunction {left : Option Expression} {both last : List Token} {e : Expression}
    (hleft : Waiting .conjunction "and" left both) (h : Spells .negation last e) :
    Spells .conjunction (both ++ last) (left.elim e (.both · e)) := by
  obtain ⟨q, rfl, rfl⟩ := h
  cases left with
  | none =>
    obtain rfl : both = [] := hleft
    exact ⟨.single q, rfl, rfl⟩
  | some l =>
    obtain ⟨_, place, ⟨p, rfl, rfl⟩, rfl⟩ := hleft
    exact ⟨.and p place q, by simp [Phrase.tokens], rfl⟩

/-- A conjunction completes the expression that waits for it. -/
theorem Waiting.expression {left : Option Expression} {either last : List Token} {e : Expression}
    (hleft : Waiting .expression "or" left either) (h : Spells .conjunction last e) :
    Spells .expression (either ++ last) (left.elim e (.either · e)) := by
  obtain ⟨q, rfl, rfl⟩ := h
  cases left with
  | none =>
    obtain rfl : either = [] := hleft
    exact ⟨.one q, rfl, rfl⟩
  | some l =>
    obtain ⟨_, place, ⟨p, rfl, rfl⟩, rfl⟩ := hleft
    exact ⟨.or p place q, by simp [Phrase.tokens], rfl⟩

omit [Host] in
theorem Level.conjunction_eq (level : Level) (operand : Expression) :
    level.conjunction operand = level.both.elim (negate level.negations operand)
      (.both · (negate level.negations operand)) := by
  rw [conjunction]
  cases level.both <;> rfl

omit [Host] in
theorem Level.expression_eq (level : Level) (operand : Expression) :
    level.expression operand = level.either.elim (level.conjunction operand)
      (.either · (level.conjunction operand)) := by
  rw [expression]
  cases level.either <;> rfl

/-- The tokens of a level and of a comparison after it are those of the pending `or`, and of the
conjunction that the comparison completes. -/
theorem Level.Written.conjunction {level : Level} {inside last : List Token} {e : Expression}
    (hlevel : level.Written inside) (hcompared : level.compared = none)
    (h : Spells .comparison last e) :
    ∃ either rest, inside ++ last = either ++ rest ∧
      Waiting .expression "or" level.either either ∧
        Spells .conjunction rest (level.conjunction e) := by
  obtain ⟨either, both, compared, places, rfl, heither, hboth, hplaces, hnone⟩ := hlevel
  rw [hcompared] at hnone
  obtain rfl : compared = [] := hnone
  refine ⟨either, both ++ (places.map (keyword "not") ++ last), by simp, heither, ?_⟩
  rw [Level.conjunction_eq, ← hplaces]
  exact hboth.conjunction (h.negate places)

/-- A comparison completes the expression of its level. -/
theorem Level.Written.expression {level : Level} {inside last : List Token} {e : Expression}
    (hlevel : level.Written inside) (hcompared : level.compared = none)
    (h : Spells .comparison last e) :
    Spells .expression (inside ++ last) (level.expression e) := by
  obtain ⟨either, rest, htokens, heither, hrest⟩ := hlevel.conjunction hcompared h
  rw [htokens, Level.expression_eq]
  exact heither.expression hrest

/-- An operand takes the reader from awaiting it to holding it. -/
theorem State.written_supply {level : Level} {outer : List Level} {tokens last : List Token}
    {e : Expression} (h : (State.awaiting level outer).Written tokens)
    (hlast : Spells .operand last e) :
    (State.supply e level outer).Written (tokens ++ last) := by
  obtain ⟨front, inside, hfront, hinside, rfl⟩ := h
  rw [State.supply]
  split
  · rename_i left c hcompared
    obtain ⟨either, both, compared, places, rfl, heither, hboth, hplaces, hsome⟩ := hinside
    rw [hcompared] at hsome
    obtain ⟨_, place, ⟨p, rfl, rfl⟩, rfl⟩ := hsome
    obtain ⟨q, rfl, rfl⟩ := hlast
    exact ⟨front, either ++ (both ++ (places.map (keyword "not") ++ [])),
      (Phrase.compare p c place q).tokens, hfront,
      ⟨either, both, [], places, rfl, heither, hboth, hplaces, rfl⟩, rfl, ⟨_, rfl, rfl⟩,
      by simp [Phrase.tokens]⟩
  · rename_i hcompared
    exact ⟨front, inside, last, hfront, hinside, hcompared, hlast, by simp⟩

theorem spells_leaf {token : Token} {e : Expression} (h : leaf? token = some e) :
    Spells .operand [token] e :=
  ⟨.leaf token e h, rfl, rfl⟩

/-- A token that is read where an operand is awaited opens a parenthesis, negates, or is an operand
on its own. -/
theorem written_of_readOperand {level : Level} {outer : List Level} {token : Token} {next : State}
    {tokens : List Token} (h : (State.awaiting level outer).Written tokens)
    (hstep : readOperand level outer token = .ok next) : next.Written (tokens ++ [token]) := by
  unfold readOperand at hstep
  split at hstep
  · rename_i hkind
    split at hstep
    · rename_i htext
      obtain ⟨front, inside, hfront, hinside, rfl⟩ := h
      obtain rfl := Except.ok.inj hstep
      rw [eq_parenthesis hkind htext]
      exact ⟨_, [], ⟨front, inside, token.position, hfront, hinside, rfl⟩, Level.written_empty,
        by simp⟩
    · cases hstep
  · rename_i hkind
    split at hstep
    · rename_i hnot
      obtain ⟨htext, hnone⟩ := Bool.and_eq_true_iff.mp hnot
      have hcompared : level.compared = none := Option.isNone_iff_eq_none.mp hnone
      obtain ⟨front, inside, hfront, hinside, rfl⟩ := h
      obtain ⟨either, both, compared, places, rfl, heither, hboth, hplaces, hspelled⟩ := hinside
      obtain rfl := Except.ok.inj hstep
      rw [hcompared] at hspelled
      obtain rfl : compared = [] := hspelled
      rw [eq_keyword hkind (of_decide_eq_true htext)]
      refine ⟨front, _, hfront, ⟨either, both, [], places ++ [token.position], rfl, heither, hboth,
        ?_, ?_⟩, by simp⟩
      · rw [List.length_append, hplaces]
        rfl
      · rw [hcompared]
        rfl
    · split at hstep
      · rename_i constant hconstant
        obtain rfl := Except.ok.inj hstep
        exact State.written_supply h (spells_leaf (by simp [leaf?, hkind, hconstant]))
      · cases hstep
  · rename_i hkind
    cases hread : readText token with
    | error fault => simp [hread, Except.map] at hstep
    | ok e =>
      rw [hread] at hstep
      obtain rfl := Except.ok.inj hstep
      exact State.written_supply h (spells_leaf (by simp [leaf?, hkind, hread, Except.toOption]))
  · rename_i hkind
    cases hread : readNumber token with
    | error fault => simp [hread, Except.map] at hstep
    | ok e =>
      rw [hread] at hstep
      obtain rfl := Except.ok.inj hstep
      exact State.written_supply h (spells_leaf (by simp [leaf?, hkind, hread, Except.toOption]))
  · rename_i hkind
    obtain rfl := Except.ok.inj hstep
    exact State.written_supply h (spells_leaf (by simp [leaf?, hkind]))
  · cases hstep
  · cases hstep

/-- A token that is read after an operand is a sign, a keyword between two operands, or a closing
parenthesis. -/
theorem written_of_readAfter {operand : Expression} {comparable : Bool} {level : Level}
    {outer : List Level} {token : Token} {next : State} {tokens : List Token}
    (h : (State.holding operand comparable level outer).Written tokens)
    (hstep : readAfter operand comparable level outer token = .ok next) :
    next.Written (tokens ++ [token]) := by
  obtain ⟨front, inside, last, hfront, hinside, hcompared, hlast, rfl⟩ := h
  unfold readAfter at hstep
  split at hstep
  · rename_i hkind
    split at hstep
    · rename_i c hsign
      obtain rfl := Except.ok.inj hstep
      obtain ⟨either, both, compared, places, rfl, heither, hboth, hplaces, hnone⟩ := hinside
      rw [hcompared] at hnone
      obtain rfl : compared = [] := hnone
      rw [eq_sign hkind (Comparison.eq_sign_of_ofSign? hsign)]
      exact ⟨front, _, hfront, ⟨either, both, _, places, rfl, heither, hboth, hplaces,
        last, token.position, hlast, rfl⟩, by simp⟩
    · cases hstep
  · rename_i hkind
    split at hstep
    · rename_i htext
      obtain rfl := Except.ok.inj hstep
      obtain ⟨either, rest, htokens, heither, hrest⟩ :=
        hinside.conjunction hcompared hlast.comparison
      rw [htokens, eq_keyword hkind htext]
      exact ⟨front, _, hfront,
        ⟨either, _, [], [], rfl, heither, ⟨rest, token.position, hrest, rfl⟩, rfl, rfl⟩, by simp⟩
    · split at hstep
      · rename_i htext
        obtain rfl := Except.ok.inj hstep
        rw [eq_keyword hkind htext]
        exact ⟨front, _, hfront, ⟨_, [], [], [], rfl,
          ⟨_, token.position, hinside.expression hcompared hlast.comparison, rfl⟩, rfl, rfl, rfl⟩,
          by simp⟩
      · cases hstep
  · rename_i hkind
    split at hstep
    · rename_i parent rest
      split at hstep
      · rename_i htext
        obtain rfl := Except.ok.inj hstep
        obtain ⟨front, before, place, hfront, hbefore, rfl⟩ := hfront
        obtain ⟨p, hp, he⟩ := hinside.expression hcompared hlast.comparison
        have hsupply := State.written_supply ⟨front, before, hfront, hbefore, rfl⟩
          (⟨.group place p token.position, rfl, rfl⟩ : Spells .operand _ _)
        rw [Phrase.expression, he] at hsupply
        rw [eq_parenthesis hkind htext]
        simpa [Phrase.tokens, hp] using hsupply
      · cases hstep
    · cases hstep
  · cases hstep

/-- **One token more**: what leads to a state leads, with a token that is read there, to the
next. -/
theorem written_of_step {state next : State} {token : Token} {tokens : List Token}
    (h : state.Written tokens) (hstep : state.step token = .ok next) :
    next.Written (tokens ++ [token]) := by
  cases state with
  | awaiting level outer => exact written_of_readOperand h hstep
  | holding operand comparable level outer => exact written_of_readAfter h hstep

/-- The end is accepted after a row of tokens that is the leaves of a phrase. -/
theorem spells_of_finish {state : State} {tokens : List Token} {last : Token} {e : Expression}
    (h : state.Written tokens) (hfinish : state.finish last = .ok e) :
    Spells .expression tokens e := by
  unfold State.finish at hfinish
  split at hfinish
  · cases hfinish
  · obtain rfl := Except.ok.inj hfinish
    obtain ⟨front, inside, last, hfront, hinside, hcompared, hlast, rfl⟩ := h
    obtain rfl : front = [] := hfront
    exact hinside.expression hcompared hlast.comparison
  · cases hfinish

/-- **A run of the reader** that gives an expression has gone over the leaves of a phrase for it. -/
theorem spells_of_read {room : Nat} {state : State} {before body : List Token} {last : Token}
    {e : Expression} (hwritten : state.Written before) (hbody : ∀ token ∈ body, token.kind ≠ .finish)
    (hlast : last.kind = .finish) (h : state.read room (body ++ [last]) = .ok e) :
    Spells .expression (before ++ body) e := by
  induction body generalizing state before with
  | nil =>
    rw [List.nil_append, State.read, if_pos hlast] at h
    rw [List.append_nil]
    exact spells_of_finish hwritten h
  | cons token rest ih =>
    obtain ⟨htoken, hrest⟩ := List.forall_mem_cons.mp hbody
    rw [List.cons_append, State.read, if_neg htoken] at h
    split at h
    · rename_i next htake
      have hspells := ih (written_of_step hwritten (State.take_eq_ok.mp htake).1) hrest h
      rwa [List.append_assoc] at hspells
    · cases h

/-! ## The reader and the grammar -/

/-- The number of tokens that an expression is written with. -/
def tokenCount : Expression → Nat
  | .literal _ => 1
  | .path _ _ => 1
  | .compare _ l r => l.tokenCount + (r.tokenCount + 1)
  | .both l r => l.tokenCount + (r.tokenCount + 1)
  | .either l r => l.tokenCount + (r.tokenCount + 1)
  | .negation e => e.tokenCount + 1
  | .group e => e.tokenCount + 2

/-- The rank of the phrases that spell an expression and none of a lower rank does. -/
def rank : Expression → Rank
  | .literal _ => .operand
  | .path _ _ => .operand
  | .group _ => .operand
  | .compare _ _ _ => .comparison
  | .negation _ => .negation
  | .both _ _ => .conjunction
  | .either _ _ => .expression

/-- A token on its own is a literal or a path. -/
theorem leaf_shape {token : Token} {e : Expression} (h : leaf? token = some e) :
    (∃ l, e = .literal l) ∨ ∃ head steps, e = .path head steps := by
  rw [leaf?] at h
  split at h
  · rw [readText] at h
    cases hunquote : Text.unquote Host.character? token.text with
    | error fault => simp [hunquote, Except.toOption] at h
    | ok codes => exact Or.inl ⟨_, by simpa [hunquote, Except.toOption] using h.symm⟩
  · rw [readNumber] at h
    split at h
    · exact Or.inl ⟨_, (Option.some.inj h).symm⟩
    · cases hread : Numeral.read token.text with
      | error fault => simp [hread, Except.toOption] at h
      | ok n => exact Or.inl ⟨_, by simpa [hread, Except.toOption] using h.symm⟩
  · obtain rfl := Option.some.inj h
    rw [readPath]
    split
    · exact Or.inr ⟨_, _, rfl⟩
    · exact Or.inr ⟨_, _, rfl⟩
  · obtain ⟨constant, -, rfl⟩ := Option.map_eq_some_iff.mp h
    exact Or.inl ⟨constant, rfl⟩
  · cases h

theorem Phrase.length_tokens {rank : Rank} (p : Phrase rank) :
    p.tokens.length = p.expression.tokenCount := by
  induction p with
  | leaf token e h =>
    rcases leaf_shape h with ⟨l, rfl⟩ | ⟨head, steps, rfl⟩
    · rfl
    · rfl
  | group opening inner closing ih => simp [tokens, expression, tokenCount, ih]
  | alone p ih => exact ih
  | compare l c place r ihl ihr => simp [tokens, expression, tokenCount, ihl, ihr]
  | plain p ih => exact ih
  | not place p ih => simp [tokens, expression, tokenCount, ih]
  | single p ih => exact ih
  | and l place r ihl ihr => simp [tokens, expression, tokenCount, ihl, ihr]
  | one p ih => exact ih
  | or l place r ihl ihr => simp [tokens, expression, tokenCount, ihl, ihr]

/-- The expression of a phrase binds no looser than its rank. -/
theorem Phrase.height_rank_le {rank : Rank} (p : Phrase rank) :
    p.expression.rank.height ≤ rank.height := by
  induction p with
  | leaf token e h =>
    rcases leaf_shape h with ⟨l, rfl⟩ | ⟨head, steps, rfl⟩
    · exact Nat.le_refl _
    · exact Nat.le_refl _
  | group | compare | not | and | or => exact Nat.le_refl _
  | alone p ih | plain p ih | single p ih | one p ih => exact Nat.le_succ_of_le ih

theorem Phrase.expression_ne {rank : Rank} (p : Phrase rank) {e : Expression}
    (h : rank.height < e.rank.height) : p.expression ≠ e := by
  rintro rfl
  exact absurd p.height_rank_le (Nat.not_le_of_lt h)

/-- Phrases of one expression over two rows of tokens with something after them are over the same
row. -/
theorem Phrase.tokens_inj {rank : Rank} {p q : Phrase rank} {back back' : List Token}
    (he : p.expression = q.expression) (h : p.tokens ++ back = q.tokens ++ back') :
    p.tokens = q.tokens ∧ back = back' :=
  List.append_inj h (by rw [p.length_tokens, q.length_tokens, he])

/-- A phrase is known by its tokens and its expression. -/
theorem Phrase.eq_of_expression {rank : Rank} {p q : Phrase rank} (h : p.tokens = q.tokens)
    (he : p.expression = q.expression) : p = q := by
  induction p with
  | leaf token e hleaf =>
    cases q with
    | leaf => simp_all [tokens, expression]
    | group => simp [tokens] at h
  | group opening inner closing ih =>
    cases q with
    | leaf => simp [tokens] at h
    | group opening' inner' closing' =>
      obtain ⟨hopening, hrest⟩ := List.cons.inj h
      have hinner := Expression.group.inj he
      obtain ⟨htokens, hclosing⟩ := tokens_inj hinner hrest
      obtain rfl := ih htokens hinner
      simp_all [parenthesis]
  | alone p ih =>
    cases q with
    | alone q => exact congrArg _ (ih h he)
    | compare l c place r => exact absurd he (p.expression_ne (Nat.lt_add_one 0))
  | compare l c place r ihl ihr =>
    cases q with
    | alone q => exact absurd he.symm (q.expression_ne (Nat.lt_add_one 0))
    | compare l' c' place' r' =>
      obtain ⟨rfl, hle, hre⟩ := Expression.compare.inj he
      obtain ⟨hl, hrest⟩ := tokens_inj hle h
      obtain ⟨hsign, hr⟩ := List.cons.inj hrest
      obtain rfl := ihl hl hle
      obtain rfl := ihr hr hre
      rw [(Token.mk.inj hsign).2.2]
  | plain p ih =>
    cases q with
    | plain q => exact congrArg _ (ih h he)
    | not place q => exact absurd he (p.expression_ne (Nat.lt_add_one 1))
  | not place p ih =>
    cases q with
    | plain q => exact absurd he.symm (q.expression_ne (Nat.lt_add_one 1))
    | not place' q =>
      obtain ⟨hword, hrest⟩ := List.cons.inj h
      obtain rfl := ih hrest (Expression.negation.inj he)
      rw [(Token.mk.inj hword).2.2]
  | single p ih =>
    cases q with
    | single q => exact congrArg _ (ih h he)
    | and l place r => exact absurd he (p.expression_ne (Nat.lt_add_one 2))
  | and l place r ihl ihr =>
    cases q with
    | single q => exact absurd he.symm (q.expression_ne (Nat.lt_add_one 2))
    | and l' place' r' =>
      obtain ⟨hle, hre⟩ := Expression.both.inj he
      obtain ⟨hl, hrest⟩ := tokens_inj hle h
      obtain ⟨hword, hr⟩ := List.cons.inj hrest
      obtain rfl := ihl hl hle
      obtain rfl := ihr hr hre
      rw [(Token.mk.inj hword).2.2]
  | one p ih =>
    cases q with
    | one q => exact congrArg _ (ih h he)
    | or l place r => exact absurd he (p.expression_ne (Nat.lt_add_one 3))
  | or l place r ihl ihr =>
    cases q with
    | one q => exact absurd he.symm (q.expression_ne (Nat.lt_add_one 3))
    | or l' place' r' =>
      obtain ⟨hle, hre⟩ := Expression.either.inj he
      obtain ⟨hl, hrest⟩ := tokens_inj hle h
      obtain ⟨hword, hr⟩ := List.cons.inj hrest
      obtain rfl := ihl hl hle
      obtain rfl := ihr hr hre
      rw [(Token.mk.inj hword).2.2]

/-- **No ambiguity.** A row of tokens is the leaves of one phrase at most. -/
theorem phrase_eq_of_tokens {p q : Phrase .expression} (h : p.tokens = q.tokens) : p = q := by
  obtain ⟨state, hp, ⟨operand, comparable, inside, rfl, -, hpe⟩, -⟩ :=
    reaches_of_phrase p .empty [] rfl
  obtain ⟨state', hq, ⟨operand', comparable', inside', rfl, -, hqe⟩, -⟩ :=
    reaches_of_phrase q .empty [] rfl
  rw [h, hq] at hp
  cases hp
  exact Phrase.eq_of_expression h (hpe.symm.trans hqe)

theorem Phrase.tokens_ne_nil {rank : Rank} (p : Phrase rank) : p.tokens ≠ [] := by
  induction p with
  | leaf | group | not => exact List.cons_ne_nil _ _
  | compare | and | or => exact List.append_ne_nil_of_right_ne_nil _ (List.cons_ne_nil _ _)
  | alone p ih | plain p ih | single p ih | one p ih => exact ih

/-- **The tokens of a phrase** are read as its expression if there is room for the height of the
phrase, and otherwise reading gives up. -/
theorem ofTokens_phrase (room : Nat) (p : Phrase .expression)
    (hbody : ∀ token ∈ p.tokens, token.kind ≠ .finish) {last : Token} (hlast : last.kind = .finish) :
    ofTokens room (p.tokens ++ [last]) =
      if p.height ≤ room then .ok p.expression else .error .tooDeep := by
  obtain ⟨state, hthrough, ⟨operand, comparable, inside, rfl, -, he⟩, hpeak⟩ :=
    reaches_of_phrase p .empty [] rfl
  have hread := State.read_of_through (Nat.zero_le room) hbody hlast hthrough
  have hheight : (State.awaiting .empty []).peak p.tokens = p.height :=
    hpeak.trans (Nat.zero_add p.height)
  rw [State.finish, he, hheight] at hread
  obtain ⟨token, rest, htokens⟩ := List.exists_cons_of_ne_nil p.tokens_ne_nil
  rw [htokens] at hread hbody
  rw [htokens, List.cons_append, ofTokens, if_neg (hbody token List.mem_cons_self)]
  exact hread

/-- **A row of tokens is read** exactly if it is the leaves of a phrase for which there is room, and
as its expression. -/
theorem ofTokens_eq_ok_iff {room : Nat} {body : List Token} {last : Token}
    (hbody : ∀ token ∈ body, token.kind ≠ .finish) (hlast : last.kind = .finish) {e : Expression} :
    ofTokens room (body ++ [last]) = .ok e ↔
      ∃ p : Phrase .expression, p.tokens = body ∧ p.expression = e ∧ p.height ≤ room := by
  constructor
  · intro h
    cases body with
    | nil => simp [ofTokens, hlast] at h
    | cons token rest =>
      have hread := h
      rw [List.cons_append, ofTokens, if_neg (hbody token List.mem_cons_self)] at hread
      obtain ⟨p, hp, he⟩ := spells_of_read State.written_start hbody hlast hread
      rw [List.nil_append] at hp
      rw [← hp] at h hbody
      rw [ofTokens_phrase room p hbody hlast] at h
      split at h
      · rename_i hheight
        exact ⟨p, hp, he, hheight⟩
      · cases h
  · rintro ⟨p, rfl, rfl, hheight⟩
    rw [ofTokens_phrase room p hbody hlast, if_pos hheight]

end Expression
end Stencil
