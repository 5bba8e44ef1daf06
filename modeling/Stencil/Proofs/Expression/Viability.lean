import Stencil.Proofs.Expression.Scanning

/-! # A refusal is at the first token that cannot stand

Whatever has been read can be finished: where an operand is awaited it is supplied, and each open
parenthesis is closed, which never leads further down (`State.through_completion`).  So the tokens
before one that is refused begin a row of tokens that is accepted, where there is room for as much
as before.  The token that is refused is refused whatever follows it, because a step does not look
ahead (`State.exists_refused`).

The place of a refusal is the start of the token.  The tokens of a text start one after the other,
so the place tells which token it is.
-/

namespace Stencil
namespace Expression

/-! ## Every state can be finished -/

/-- Closing parentheses. -/
def closings (n : Nat) : List Token := List.replicate n (parenthesis ')' 0)

/-- Tokens that finish an expression. -/
def State.completion : State → List Token
  | .awaiting _ outer => keyword "null" 0 :: closings outer.length
  | .holding _ _ _ outer => closings outer.length

/-- Where an operand has been supplied it is held. -/
theorem State.exists_holding_of_supply (operand : Expression) (level : Level)
    (outer : List Level) : ∃ operand' comparable level',
      State.supply operand level outer = .holding operand' comparable level' outer := by
  rw [State.supply]
  split
  · exact ⟨_, _, _, rfl⟩
  · exact ⟨_, _, _, rfl⟩

/-- What finishes an expression is no end. -/
theorem State.kind_of_mem_completion {state : State} {token : Token}
    (h : token ∈ state.completion) : token.kind ≠ .finish := by
  have hclosings : ∀ n, ∀ token ∈ closings n, token.kind ≠ .finish := by
    intro n token htoken
    rw [List.eq_of_mem_replicate htoken]
    decide
  cases state with
  | holding operand comparable level outer => exact hclosings _ token h
  | awaiting level outer => exact List.forall_mem_cons.mpr ⟨by decide, hclosings _⟩ token h

section

variable [Host] {room : Nat}

/-- The parentheses around an operand can be closed, and this only leads up. -/
theorem State.through_closings (operand : Expression) (comparable : Bool) (level : Level)
    (outer : List Level) : ∃ operand' comparable' level',
      (State.holding operand comparable level outer).through (closings outer.length) =
          .ok (.holding operand' comparable' level' []) ∧
        (State.holding operand comparable level outer).peak (closings outer.length) =
          (State.holding operand comparable level outer).depth := by
  induction outer generalizing operand comparable level with
  | nil => exact ⟨operand, comparable, level, rfl, rfl⟩
  | cons parent rest ih =>
    obtain ⟨operand', comparable', level', hsupply⟩ :=
      exists_holding_of_supply (.group (level.expression operand)) parent rest
    have hclose : (State.holding operand comparable level (parent :: rest)).step
        (parenthesis ')' 0) = .ok (.holding operand' comparable' level' rest) :=
      congrArg Except.ok hsupply
    obtain ⟨last, comparable'', inside, hrest, hpeak⟩ := ih operand' comparable' level'
    refine ⟨last, comparable'', inside, State.through_cons hclose hrest, ?_⟩
    have hup : (State.holding operand' comparable' level' rest).depth ≤
        (State.holding operand comparable level (parent :: rest)).depth := by
      rw [← hsupply, State.depth_supply]
      simp only [State.depth, outerDepth]
      omega
    exact (State.peak_cons _ hclose).trans (hpeak ▸ Nat.max_eq_left hup)

/-- **Every state can be finished**, without going further down. -/
theorem State.through_completion (state : State) : ∃ operand comparable level,
    state.through state.completion = .ok (.holding operand comparable level []) ∧
      state.peak state.completion = state.depth := by
  cases state with
  | holding operand comparable level outer => exact through_closings operand comparable level outer
  | awaiting level outer =>
    obtain ⟨operand, comparable, level', hsupply⟩ :=
      exists_holding_of_supply (.literal .null) level outer
    have hnull : (State.awaiting level outer).step (keyword "null" 0) =
        .ok (.holding operand comparable level' outer) :=
      (step_leaf rfl level outer).trans (congrArg Except.ok hsupply)
    obtain ⟨last, comparable', inside, hrest, hpeak⟩ :=
      through_closings operand comparable level' outer
    refine ⟨last, comparable', inside, State.through_cons hnull hrest, ?_⟩
    refine (State.peak_cons _ hnull).trans ?_
    rw [hpeak, ← hsupply, State.depth_supply, Nat.max_self]

/-! ## Where reading stops -/

/-- Where there is a token before the end, reading begins with it. -/
theorem ofTokens_eq_read {tokens : List Token} (hne : tokens ≠ [])
    (h : ∀ token ∈ tokens.head?, token.kind ≠ .finish) :
    ofTokens room tokens = State.start.read room tokens := by
  cases tokens with
  | nil => exact absurd rfl hne
  | cons first rest => rw [ofTokens, if_neg (h first rfl)]

/-- **Where reading stops**: if there is room, at a token that is refused, or has no value, whatever
follows it. -/
theorem State.exists_refused {state : State} {body : List Token} {last : Token} {fault : Fault}
    (hroom : state.depth ≤ room) (hbody : ∀ token ∈ body, token.kind ≠ .finish)
    (hlast : last.kind = .finish) (h : state.read room (body ++ [last]) = .error fault)
    (hshallow : fault ≠ .tooDeep) :
    ∃ before token after next, body ++ [last] = before ++ token :: after ∧
      (∀ earlier ∈ before, earlier.kind ≠ .finish) ∧ state.through before = .ok next ∧
      state.peak before ≤ room ∧
      (∀ room' more, next.read room' (token :: more) = .error fault) ∧
      ((∃ reason, fault = .refused reason token.position) ∨ ValueFault token fault) := by
  induction body generalizing state with
  | nil =>
    have hstop : ∀ room' more, state.read room' (last :: more) = state.finish last :=
      fun room' more => by rw [read, if_pos hlast]
    rw [List.nil_append, hstop] at h
    exact ⟨[], last, [], state, rfl, List.forall_mem_nil _, rfl, hroom,
      fun room' more => (hstop room' more).trans h, Or.inl (finish_eq_error h)⟩
  | cons token rest ih =>
    obtain ⟨htoken, hrest⟩ := List.forall_mem_cons.mp hbody
    rw [List.cons_append, read, if_neg htoken] at h
    cases htake : state.take room token with
    | ok next =>
      obtain ⟨hstep, hnext⟩ := State.take_eq_ok.mp htake
      rw [htake] at h
      obtain ⟨before, stuck, after, last', hsplit, hbefore, hthrough, hpeak, hrefused, hplace⟩ :=
        ih hnext hrest h
      refine ⟨token :: before, stuck, after, last', congrArg (token :: ·) hsplit,
        List.forall_mem_cons.mpr ⟨htoken, hbefore⟩, State.through_cons hstep hthrough, ?_, hrefused,
        hplace⟩
      rw [State.peak_cons _ hstep]
      exact Nat.max_le.mpr ⟨hroom, hpeak⟩
    | error takeFault =>
      rw [htake] at h
      obtain rfl := Except.error.inj h
      rcases State.take_eq_error.mp htake with hstep | ⟨hdeep, -⟩
      · have hstop : ∀ room' more, state.read room' (token :: more) = .error takeFault :=
          fun room' more => by rw [read, if_neg htoken, take, hstep]
        exact ⟨[], token, rest ++ [last], state, rfl, List.forall_mem_nil _, rfl, hroom, hstop,
          step_eq_error hstep⟩
      · exact absurd hdeep hshallow

/-! ## The first token that cannot stand -/

/-- The reader accepts a row of tokens with the end of a text behind it, where so many calls may be
under way. -/
structure Accepted (room : Nat) (tokens : List Token) : Prop where
  ends : ∃ body last, tokens = body ++ [last] ∧ last.kind = .finish ∧
    ∀ token ∈ body, token.kind ≠ .finish
  reads : ∃ e, ofTokens room tokens = .ok e

/-- **What has been read begins a row of tokens that is accepted.** -/
theorem exists_accepted {before : List Token} {state : State}
    (hbefore : ∀ token ∈ before, token.kind ≠ .finish)
    (hthrough : State.start.through before = .ok state) (hpeak : State.start.peak before ≤ room) :
    ∃ more, Accepted room (before ++ more) := by
  let last : Token := ⟨.finish, [], 0⟩
  have hbody : ∀ token ∈ before ++ state.completion, token.kind ≠ .finish := fun token htoken =>
    (List.mem_append.mp htoken).elim (hbefore token) State.kind_of_mem_completion
  obtain ⟨operand, comparable, level, hcompletion, hflat⟩ := state.through_completion
  have hshallow : State.start.peak (before ++ state.completion) ≤ room := by
    rw [State.peak_append _ hthrough, hflat]
    exact Nat.max_le.mpr ⟨hpeak, Nat.le_trans (State.depth_le_peak_of_through hthrough) hpeak⟩
  have hlast : last.kind = .finish := rfl
  have hread := State.read_of_through (Nat.zero_le room) hbody hlast
    (State.through_append hthrough hcompletion)
  rw [if_pos hshallow] at hread
  have hvisible : before ++ state.completion ≠ [] := by
    intro hnil
    obtain ⟨rfl, hempty⟩ := List.append_eq_nil_iff.mp hnil
    obtain rfl : State.start = state := Except.ok.inj hthrough
    cases hempty
  have hhead : ∀ token ∈ (before ++ state.completion ++ [last]).head?, token.kind ≠ .finish := by
    intro token htoken
    rw [List.head?_append_of_ne_nil _ hvisible] at htoken
    exact hbody token (List.mem_of_mem_head? htoken)
  refine ⟨state.completion ++ [last], ⟨before ++ state.completion, last, by simp, rfl, hbody⟩,
    level.expression operand, ?_⟩
  rw [← List.append_assoc, ofTokens_eq_read (by simp) hhead, hread]
  rfl

/-- **A refusal is at the first token that cannot stand.** If a text that has tokens before its end,
and whose literals have values, is refused at a place, then a token starts there, the end of the
text counted as one; the tokens before it begin a row that is accepted; and whatever follows the
token, and whatever more room there is, the row is refused for the same reason at the same place. -/
theorem read_eq_refused (room : Nat) (t : Text) (tokens : List Token) (reason : Reason)
    (place : Nat) (hscan : Token.scan t = .ok tokens)
    (hsome : ∀ token ∈ tokens.head?, token.kind ≠ .finish)
    (hvalues : ∀ token ∈ tokens, ∀ fault, ¬ ValueFault token fault)
    (hread : read room t = .error (.refused reason place)) :
    ∃ before token after, tokens = before ++ token :: after ∧ token.position = place ∧
      (∀ earlier ∈ before, earlier.position < place) ∧
      (∃ more, Accepted room (before ++ more)) ∧
      ∀ room' more, room ≤ room' →
        ofTokens room' (before ++ token :: more) = .error (.refused reason place) := by
  obtain ⟨body, last, rfl, hlast, hbody⟩ := Token.exists_body_of_scanFrom hscan
  have hrefused : ofTokens room (body ++ [last]) = .error (.refused reason place) := by
    rw [read, hscan] at hread
    exact hread
  rw [ofTokens_eq_read (by simp) hsome] at hrefused
  obtain ⟨before, token, after, state, hsplit, hbefore, hthrough, hpeak, hstop, hplace⟩ :=
    State.exists_refused (Nat.zero_le room) hbody hlast hrefused Fault.noConfusion
  have htoken : token ∈ body ++ [last] := hsplit ▸ List.mem_append_cons_self
  obtain rfl : token.position = place := by
    rcases hplace with ⟨reason', heq⟩ | hvalue
    · exact (Fault.refused.inj heq).2.symm
    · exact absurd hvalue (hvalues token htoken _)
  have hearlier : ∀ earlier ∈ before, earlier.position < token.position := by
    have hordered := Token.pairwise_position_of_scan hscan
    rw [hsplit] at hordered
    exact fun earlier hmem =>
      (List.pairwise_append.mp hordered).2.2 earlier hmem token List.mem_cons_self
  refine ⟨before, token, after, hsplit, rfl, hearlier, exists_accepted hbefore hthrough hpeak,
    fun room' more hmore => ?_⟩
  have hhead : (before ++ token :: more).head? = (body ++ [last]).head? := by
    rw [hsplit, List.head?_append, List.head?_append, List.head?_cons, List.head?_cons]
  rw [ofTokens_eq_read (by simp) (hhead ▸ hsome),
    State.read_append _ (Nat.zero_le room') hbefore hthrough,
    if_pos (Nat.le_trans hpeak hmore), hstop]

end

attribute [local instance] Host.usual

/-- The tokens of `(a b`. -/
def unclosedTokens : List Token :=
  [parenthesis '(' 0, ⟨.path, ['a'], 1⟩, ⟨.path, ['b'], 3⟩, ⟨.finish, [], 4⟩]

theorem read_eq_refused_unclosed :
    ∃ before token after, unclosedTokens = before ++ token :: after ∧ token.position = 3 ∧
      (∀ earlier ∈ before, earlier.position < 3) ∧
      (∃ more, Accepted Host.reading (before ++ more)) ∧
      ∀ room' more, Host.reading ≤ room' →
        ofTokens room' (before ++ token :: more) = .error (.refused .unclosedGroup 3) := by
  have hscan : Token.scan (Text.ofString "(a b") = .ok unclosedTokens := by cbv
  have hsome : ∀ token ∈ unclosedTokens.head?, token.kind ≠ .finish := by decide
  have hkinds : ∀ token ∈ unclosedTokens, token.kind ≠ .text ∧ token.kind ≠ .number := by decide
  have hread : read Host.reading (Text.ofString "(a b") = .error (.refused .unclosedGroup 3) := by
    rw [read, hscan]
    rfl
  exact read_eq_refused Host.reading _ _ .unclosedGroup 3 hscan hsome
    (fun token htoken => not_valueFault_of_kind (hkinds token htoken).1 (hkinds token htoken).2)
    hread

end Expression
end Stencil
