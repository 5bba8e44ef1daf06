import Stencil.Proofs.Expression.Lexemes

/-! # What is written of an expression is read as it

An expression that has been read from a text without fractional numerals is written as a text that
is read as the same expression (`Expression.read_write`).

The leaves are what a numeral without a fraction, a quoted literal, a path or a keyword can stand
for (`Legible`), and a written leaf is a lexeme that stands for it again (`Legible.lexeme`).  Above
the leaves nothing but parentheses, keywords and signs is written, always with a space or a closing
parenthesis behind a leaf; so the written form of what a phrase spells is cut into the tokens of a
phrase of the same rank, with the same expression (`exists_phrase_of_write`, by induction on the
phrase).  No parentheses have to be added, because they are part of the expression: a phrase and its
expression have the same shape.  The two phrases are of the same height too, so that there is room
for the one where there is for the other.

Writing goes down for each level of the expression, a chain of `and` or `or` included, while reading
a chain stays where it is.  So there can be too little room to write an expression that has been
read (`written?_chain`).
-/

namespace Stencil
namespace Expression

open Token Text

/-! ## Leaves -/

/-- What a leaf without a fraction stands for. -/
inductive Legible : Expression → Prop
  | null : Legible (.literal .null)
  | bool (b : Bool) : Legible (.literal (.bool b))
  | int {n : Int} (hn : Numeral.isWritable n = true) : Legible (.literal (.int n))
  | points {codes : List Nat} (hcodes : ∀ n ∈ codes, n ≤ lastPoint) :
      Legible (.literal (Literal.ofPoints codes))
  | path {head : Text} {steps : List Text} (hhead : IsName head)
      (hsteps : ∀ step ∈ steps, IsWord step) : Legible (.path head steps)

/-- A token that is no numeral with a fraction. -/
def Whole (token : Token) : Prop := token.kind = .number → '.' ∉ token.text

instance (token : Token) : Decidable (Whole token) :=
  inferInstanceAs (Decidable (token.kind = .number → '.' ∉ token.text))

/-- The text of a path that stands in a text is a path. -/
theorem exists_path_of_scanFrom {place : Nat} {t : Text} {tokens : List Token}
    (h : scanFrom place t = .ok tokens) {token : Token} (htoken : token ∈ tokens)
    (hkind : token.kind = .path) :
    ∃ rest, pathLength rest ≠ 0 ∧ token.text = rest.take (pathLength rest) := by
  obtain ⟨rest, kind, n, start, -, -, hfirst, rfl⟩ :=
    exists_lexeme_of_scanFrom h htoken (by rw [hkind]; exact Kind.noConfusion)
  rw [ofLexeme] at hkind ⊢
  split at hkind
  · cases hkind
  · rename_i hname
    obtain rfl : kind = .path := hkind
    obtain ⟨hne, -, -, hlength⟩ := first?_eq_some hfirst
    obtain rfl := hlength rfl
    rw [if_neg hname]
    exact ⟨rest, hne, rfl⟩

theorem write_ofPoints (codes : List Nat) :
    write (.literal (Literal.ofPoints codes)) = quotedPoints codes := by
  rw [Literal.ofPoints, Text.ofPoints?]
  split
  · rename_i t h
    split at h
    · cases h
    · rename_i hcharacters
      obtain rfl := Option.some.inj h
      exact quoted_map_ofNat (eq_false_of_ne_true hcharacters)
  · rfl

theorem whole_keyword (word : String) (place : Nat) : Whole (keyword word place) := nofun

theorem whole_parenthesis (c : Char) (place : Nat) : Whole (parenthesis c place) := nofun

theorem whole_sign (c : Comparison) (place : Nat) : Whole (sign c place) := nofun

/-- Keywords are lexemes. -/
theorem lexeme_keyword (word : String)
    (h : word ∈ ["and", "or", "not", "true", "false", "null"]) :
    Lexeme .path (ofString word) ∧
      ∀ place, ofLexeme .path (ofString word) place = keyword word place := by
  simp only [List.mem_cons, List.not_mem_nil, or_false] at h
  rcases h with rfl | rfl | rfl | rfl | rfl | rfl
  all_goals exact ⟨lexeme_name (isName_of_startsName (by decide) (by decide)), fun _ => rfl⟩

/-- No path that is marked by a dollar sign is a keyword. -/
theorem ofLexeme_path (head : Text) (steps : List Text) (place : Nat) :
    ofLexeme .path ('$' :: join ['.'] (head :: steps)) place =
      ⟨.path, '$' :: join ['.'] (head :: steps), place⟩ := by
  have hdollar : ∀ t : Text, keywords.contains (lowerAscii ('$' :: t)) = false := by
    intro t
    have hlower : lowerAscii ('$' :: t) = '$' :: lowerAscii t := rfl
    rw [hlower, List.contains_eq_mem, decide_eq_false_iff_not]
    intro hmem
    have hstarts : ∀ word ∈ keywords, word.head? ≠ some '$' := by decide
    exact hstarts _ hmem rfl
  rw [ofLexeme, hdollar]
  rfl

theorem point_notMem_ofInt (n : Int) : '.' ∉ ofInt n := by
  have hdigits : '.' ∉ ofNat n.natAbs := fun hmem => absurd (isDigit_of_mem_ofNat hmem) (by decide)
  rcases ofInt_eq n with ⟨-, hshape⟩ | ⟨-, hshape⟩
  · rwa [hshape]
  · rw [hshape, List.mem_cons, not_or]
    exact ⟨by decide, hdigits⟩

/-! ## Cutting a written form -/

/-- A text is cut into a row of tokens wherever it ends. -/
def Cuts (place : Nat) (t : Text) (tokens : List Token) : Prop :=
  ∀ rest, Ends rest → scanFrom place (t ++ rest) =
    (scanFrom (place + t.length) rest).map (tokens ++ ·)

theorem cuts_of_lexeme {kind : Kind} {t : Text} (h : Lexeme kind t) (place : Nat) :
    Cuts place t [ofLexeme kind t place] := fun _ hends => scanFrom_lexeme h hends place

theorem map_append_append {α : Type} (front back : List Token)
    (result : Except α (List Token)) :
    (result.map (back ++ ·)).map (front ++ ·) = result.map (front ++ back ++ ·) := by
  cases result with
  | error fault => rfl
  | ok tokens => exact congrArg Except.ok (List.append_assoc front back tokens).symm

/-- Two texts with a space between them. -/
theorem Cuts.append {place : Nat} {t u : Text} {front back : List Token}
    (ht : Cuts place t front) (hu : Cuts (place + t.length + 1) u back) :
    Cuts place (t ++ ' ' :: u) (front ++ back) := by
  intro rest hends
  have hplace : place + t.length + 1 + u.length = place + (t ++ ' ' :: u).length := by
    rw [List.length_append, List.length_cons]
    omega
  rw [List.append_assoc, List.cons_append, ht _ (ends_space _), scanFrom_space, hu rest hends,
    map_append_append, hplace]

/-- Two texts with a lexeme and spaces between them. -/
theorem Cuts.around {place : Nat} {t u word : Text} {kind : Kind} {front back : List Token}
    (ht : Cuts place t front) (hword : Lexeme kind word)
    (hu : Cuts (place + t.length + 1 + word.length + 1) u back) :
    Cuts place (t ++ ' ' :: (word ++ ' ' :: u))
      (front ++ ofLexeme kind word (place + t.length + 1) :: back) :=
  ht.append ((cuts_of_lexeme hword _).append hu)

/-- A text in parentheses. -/
theorem Cuts.group {place : Nat} {t : Text} {tokens : List Token} (h : Cuts (place + 1) t tokens) :
    Cuts place ('(' :: (t ++ [')']))
      (parenthesis '(' place :: (tokens ++ [parenthesis ')' (place + 1 + t.length)])) := by
  intro rest _
  have hplace : place + 1 + t.length + 1 = place + ('(' :: (t ++ [')'])).length := by
    rw [List.length_cons, List.length_append, List.length_singleton]
    omega
  have hclose := scanFrom_parenthesis (Or.inr rfl : ')' = '(' ∨ ')' = ')') (place + 1 + t.length) rest
  rw [List.cons_append, List.append_assoc, List.singleton_append,
    scanFrom_parenthesis (Or.inl rfl), h _ (ends_parenthesis _), hclose, hplace]
  cases scanFrom (place + ('(' :: (t ++ [')'])).length) rest with
  | error fault => rfl
  | ok more => simp [Except.map]

theorem write_both (l r : Expression) :
    write (.both l r) = write l ++ ' ' :: (ofString "and" ++ ' ' :: write r) := by
  have hword : ofString " and " = ' ' :: (ofString "and" ++ [' ']) := by decide
  rw [write, hword]
  simp

theorem write_either (l r : Expression) :
    write (.either l r) = write l ++ ' ' :: (ofString "or" ++ ' ' :: write r) := by
  have hword : ofString " or " = ' ' :: (ofString "or" ++ [' ']) := by decide
  rw [write, hword]
  simp

theorem write_negation (e : Expression) :
    write (.negation e) = ofString "not" ++ ' ' :: write e := by
  have hword : ofString "not " = ofString "not" ++ [' '] := by decide
  rw [write, hword]
  simp

section

variable [Host]

/-! ## Leaves are read again -/

/-- **The leaves of a text are legible.** -/
theorem legible_of_leaf {t : Text} {tokens : List Token} (hscan : scan t = .ok tokens)
    {token : Token} (htoken : token ∈ tokens) (hwhole : Whole token) {e : Expression}
    (h : leaf? token = some e) : Legible e := by
  rw [leaf?] at h
  split at h
  · rename_i hkind
    rw [readText] at h
    cases hunquote : unquote Host.character? token.text with
    | error fault => simp [hunquote, Except.toOption] at h
    | ok codes =>
      obtain rfl : .literal (Literal.ofPoints codes) = e := by
        simpa [hunquote, Except.toOption] using h
      exact .points (le_of_mem_unquote hunquote)
  · rename_i hkind
    have hpoint : token.text.contains '.' = false := by simpa using hwhole hkind
    rw [readNumber, hpoint] at h
    cases hread : Numeral.read token.text with
    | error fault => simp [hread, Except.toOption] at h
    | ok n =>
      obtain rfl : .literal (.int n) = e := by simpa [hread, Except.toOption] using h
      exact .int (Numeral.isWritable_of_read hread)
  · rename_i hkind
    obtain rfl := Option.some.inj h
    obtain ⟨rest, hlength, htext⟩ := exists_path_of_scanFrom hscan htoken hkind
    obtain ⟨head, steps, hfields, hhead, hsteps⟩ := fields_take_pathLength hlength
    rw [readPath, htext, hfields]
    exact .path hhead hsteps
  · obtain ⟨constant, hconstant, rfl⟩ := Option.map_eq_some_iff.mp h
    rw [constant?] at hconstant
    split at hconstant
    · obtain rfl := Option.some.inj hconstant
      exact .bool true
    · split at hconstant
      · obtain rfl := Option.some.inj hconstant
        exact .bool false
      · split at hconstant
        · obtain rfl := Option.some.inj hconstant
          exact .null
        · cases hconstant
  · cases h

/-- **A written leaf** is a lexeme that stands for the leaf. -/
theorem Legible.lexeme {e : Expression} (h : Legible e) :
    ∃ kind, Lexeme kind e.write ∧ ∀ place, leaf? (ofLexeme kind e.write place) = some e ∧
      Whole (ofLexeme kind e.write place) := by
  cases h with
  | null =>
    obtain ⟨hlexeme, htoken⟩ := lexeme_keyword "null" (by simp)
    exact ⟨.path, hlexeme, fun place => htoken place ▸ ⟨rfl, whole_keyword _ _⟩⟩
  | bool b =>
    cases b with
    | true =>
      obtain ⟨hlexeme, htoken⟩ := lexeme_keyword "true" (by simp)
      exact ⟨.path, hlexeme, fun place => htoken place ▸ ⟨rfl, whole_keyword _ _⟩⟩
    | false =>
      obtain ⟨hlexeme, htoken⟩ := lexeme_keyword "false" (by simp)
      exact ⟨.path, hlexeme, fun place => htoken place ▸ ⟨rfl, whole_keyword _ _⟩⟩
  | @int n hn =>
    refine ⟨.number, lexeme_int n, fun place => ?_⟩
    have hpoint : '.' ∉ ofInt n := point_notMem_ofInt n
    refine ⟨?_, fun _ => hpoint⟩
    have htoken : ofLexeme .number (ofInt n) place = ⟨.number, ofInt n, place⟩ := rfl
    have hread : Numeral.read (ofInt n) = .ok n := Numeral.read_ofInt hn
    have hwrite : write (.literal (.int n)) = ofInt n := rfl
    simp [hwrite, htoken, leaf?, readNumber, hpoint, hread, Except.toOption]
  | @points codes hcodes =>
    rw [write_ofPoints]
    refine ⟨.text, lexeme_quotedPoints hcodes, fun place => ⟨?_, fun hkind => by cases hkind⟩⟩
    have htoken : ofLexeme .text (quotedPoints codes) place = ⟨.text, quotedPoints codes, place⟩ :=
      rfl
    simp [htoken, leaf?, readText, unquote_quotedPoints hcodes, Except.toOption]
  | @path head steps hhead hsteps =>
    refine ⟨.path, lexeme_path hhead hsteps, fun place => ?_⟩
    have hwrite : write (.path head steps) = '$' :: join ['.'] (head :: steps) := rfl
    have htoken := ofLexeme_path head steps place
    have hpoint : ∀ word : Text, (∀ c ∈ word, isWord c = true) → '.' ∉ word :=
      fun word hword => notMem_of_isWord (by decide) hword
    have hfields : fields '.' (join ['.'] (head :: steps)) = head :: steps :=
      fields_join (hpoint head hhead.isWord) fun step hstep => hpoint step (hsteps step hstep).2
    rw [hwrite, htoken]
    refine ⟨?_, fun hkind => by cases hkind⟩
    simp [leaf?, readPath, dollarLength, hfields]

/-! ## From a phrase to the phrase of what is written -/

/-- A phrase of the same height that stands for the same expression, without fractional numerals. -/
structure Phrase.Copies {rank : Rank} (q p : Phrase rank) : Prop where
  expression : q.expression = p.expression
  height : q.height = p.height
  whole : ∀ token ∈ q.tokens, Whole token

/-- Tokens whose leaves are legible. -/
def AllLegible (tokens : List Token) : Prop :=
  ∀ token ∈ tokens, ∀ e, leaf? token = some e → Legible e

theorem AllLegible.sides {front back : List Token} {middle : Token}
    (h : AllLegible (front ++ middle :: back)) : AllLegible front ∧ AllLegible back := by
  obtain ⟨hfront, hrest⟩ := List.forall_mem_append.mp h
  exact ⟨hfront, (List.forall_mem_cons.mp hrest).2⟩

/-- **The written form of what a phrase spells** is cut into the tokens of a phrase that spells it
too. -/
theorem exists_phrase_of_write {rank : Rank} (p : Phrase rank) (hleaves : AllLegible p.tokens)
    (place : Nat) :
    ∃ q : Phrase rank, q.Copies p ∧ Cuts place p.expression.write q.tokens := by
  induction p generalizing place with
  | leaf token e h =>
    obtain ⟨kind, hlexeme, hleaf⟩ := (hleaves token List.mem_cons_self e h).lexeme
    obtain ⟨hread, hwhole⟩ := hleaf place
    refine ⟨.leaf _ e hread, ⟨rfl, rfl, ?_⟩, cuts_of_lexeme hlexeme place⟩
    exact fun other hother => List.mem_singleton.mp hother ▸ hwhole
  | group opening inner closing ih =>
    have hinner : AllLegible inner.tokens :=
      (AllLegible.sides (List.forall_mem_cons.mp hleaves).2).1
    obtain ⟨q, hq, hcuts⟩ := ih hinner (place + 1)
    refine ⟨.group place q (place + 1 + inner.expression.write.length), ⟨?_, ?_, ?_⟩, ?_⟩
    · rw [Phrase.expression, Phrase.expression, hq.expression]
    · rw [Phrase.height, Phrase.height, hq.height]
    · simpa [Phrase.tokens, or_imp, forall_and, whole_parenthesis] using hq.whole
    · exact hcuts.group
  | alone p ih =>
    obtain ⟨q, hq, hcuts⟩ := ih hleaves place
    exact ⟨.alone q, ⟨hq.expression, hq.height, hq.whole⟩, hcuts⟩
  | plain p ih =>
    obtain ⟨q, hq, hcuts⟩ := ih hleaves place
    exact ⟨.plain q, ⟨hq.expression, hq.height, hq.whole⟩, hcuts⟩
  | single p ih =>
    obtain ⟨q, hq, hcuts⟩ := ih hleaves place
    exact ⟨.single q, ⟨hq.expression, hq.height, hq.whole⟩, hcuts⟩
  | one p ih =>
    obtain ⟨q, hq, hcuts⟩ := ih hleaves place
    exact ⟨.one q, ⟨hq.expression, hq.height, hq.whole⟩, hcuts⟩
  | compare l c middle r ihl ihr =>
    obtain ⟨hl, hr⟩ := AllLegible.sides hleaves
    obtain ⟨ql, hql, hcutsl⟩ := ihl hl place
    obtain ⟨qr, hqr, hcutsr⟩ :=
      ihr hr (place + l.expression.write.length + 1 + c.sign.length + 1)
    refine ⟨.compare ql c (place + l.expression.write.length + 1) qr, ⟨?_, ?_, ?_⟩, ?_⟩
    · rw [Phrase.expression, Phrase.expression, hql.expression, hqr.expression]
    · rw [Phrase.height, Phrase.height, hql.height, hqr.height]
    · simpa [Phrase.tokens, or_imp, forall_and, whole_sign] using And.intro hql.whole hqr.whole
    · exact hcutsl.around (lexeme_sign c) hcutsr
  | not before p ih =>
    obtain ⟨hword, htoken⟩ := lexeme_keyword "not" (by simp)
    obtain ⟨q, hq, hcuts⟩ := ih (List.forall_mem_cons.mp hleaves).2
      (place + (ofString "not").length + 1)
    refine ⟨.not place q, ⟨?_, ?_, ?_⟩, ?_⟩
    · rw [Phrase.expression, Phrase.expression, hq.expression]
    · rw [Phrase.height, Phrase.height, hq.height]
    · simpa [Phrase.tokens, or_imp, forall_and, whole_keyword] using hq.whole
    · have hcuts := (cuts_of_lexeme hword place).append hcuts
      rw [htoken] at hcuts
      rw [Phrase.expression, write_negation]
      exact hcuts
  | and l middle r ihl ihr =>
    obtain ⟨hword, htoken⟩ := lexeme_keyword "and" (by simp)
    obtain ⟨hl, hr⟩ := AllLegible.sides hleaves
    obtain ⟨ql, hql, hcutsl⟩ := ihl hl place
    obtain ⟨qr, hqr, hcutsr⟩ :=
      ihr hr (place + l.expression.write.length + 1 + (ofString "and").length + 1)
    refine ⟨.and ql (place + l.expression.write.length + 1) qr, ⟨?_, ?_, ?_⟩, ?_⟩
    · rw [Phrase.expression, Phrase.expression, hql.expression, hqr.expression]
    · rw [Phrase.height, Phrase.height, hql.height, hqr.height]
    · simpa [Phrase.tokens, or_imp, forall_and, whole_keyword] using And.intro hql.whole hqr.whole
    · have hcuts := hcutsl.around hword hcutsr
      rw [htoken] at hcuts
      rw [Phrase.expression, write_both]
      exact hcuts
  | or l middle r ihl ihr =>
    obtain ⟨hword, htoken⟩ := lexeme_keyword "or" (by simp)
    obtain ⟨hl, hr⟩ := AllLegible.sides hleaves
    obtain ⟨ql, hql, hcutsl⟩ := ihl hl place
    obtain ⟨qr, hqr, hcutsr⟩ :=
      ihr hr (place + l.expression.write.length + 1 + (ofString "or").length + 1)
    refine ⟨.or ql (place + l.expression.write.length + 1) qr, ⟨?_, ?_, ?_⟩, ?_⟩
    · rw [Phrase.expression, Phrase.expression, hql.expression, hqr.expression]
    · rw [Phrase.height, Phrase.height, hql.height, hqr.height]
    · simpa [Phrase.tokens, or_imp, forall_and, whole_keyword] using And.intro hql.whole hqr.whole
    · have hcuts := hcutsl.around hword hcutsr
      rw [htoken] at hcuts
      rw [Phrase.expression, write_either]
      exact hcuts

/-! ## Reading what has been written -/

variable {room : Nat}

/-- The written form of what a phrase without fractions spells is read as what it spells, if there
is room for the height of the phrase; and it has no fractional numeral either. -/
theorem read_write_of_phrase {p : Phrase .expression} (hleaves : AllLegible p.tokens)
    (hheight : p.height ≤ room) :
    read room p.expression.write = .ok p.expression ∧
      ∃ tokens, scan p.expression.write = .ok tokens ∧ ∀ token ∈ tokens, Whole token := by
  obtain ⟨q, hq, hcuts⟩ := exists_phrase_of_write p hleaves 0
  have hscan : scan p.expression.write =
      .ok (q.tokens ++ [⟨.finish, [], 0 + p.expression.write.length⟩]) := by
    have hall := hcuts [] ends_nil
    rw [List.append_nil, scanFrom] at hall
    exact hall
  have hread : read room p.expression.write = .ok p.expression := by
    rw [read_phrase q hscan rfl, hq.height, if_pos hheight, hq.expression]
  refine ⟨hread, _, hscan, List.forall_mem_append.mpr ⟨hq.whole, ?_⟩⟩
  exact List.forall_mem_singleton.mpr fun hkind => by cases hkind

/-- What is read is the leaves of a phrase for which there is room. -/
theorem exists_phrase_of_read {t : Text} {e : Expression} (h : read room t = .ok e) :
    ∃ (p : Phrase .expression) (last : Token), scan t = .ok (p.tokens ++ [last]) ∧
      p.expression = e ∧ p.height ≤ room := by
  rw [read] at h
  cases hscan : scan t with
  | error fault => simp [hscan] at h
  | ok tokens =>
    obtain ⟨body, last, rfl, hlast, hbody⟩ := exists_body_of_scanFrom hscan
    rw [hscan] at h
    obtain ⟨p, rfl, hp, hheight⟩ := (ofTokens_eq_ok_iff hbody hlast).mp h
    exact ⟨p, last, rfl, hp, hheight⟩

/-- **What is written of an expression is read as it.** For a text that is read as an expression and
has no fractional numeral in it: where there is room to write the levels of the expression, it is
written as a text that is read as the same expression, and has no fractional numeral in it either;
and where there is not, it is not written. -/
theorem read_write (reading writing : Nat) (t : Text) (e : Expression) (h : read reading t = .ok e)
    (hwhole : ∀ tokens, scan t = .ok tokens → ∀ token ∈ tokens, Whole token) :
    (Host.writing * e.depth ≤ writing →
      ∃ written, e.written? writing = some written ∧ read reading written = .ok e ∧
        ∀ tokens, scan written = .ok tokens → ∀ token ∈ tokens, Whole token) ∧
    (writing < Host.writing * e.depth → e.written? writing = none) := by
  obtain ⟨p, last, hscan, rfl, hheight⟩ := exists_phrase_of_read h
  have hleaves : AllLegible p.tokens := fun token htoken e hleaf =>
    have hmem : token ∈ p.tokens ++ [last] := List.mem_append_left _ htoken
    legible_of_leaf hscan hmem (hwhole _ hscan token hmem) hleaf
  obtain ⟨hread, tokens, htokens, hagain⟩ := read_write_of_phrase hleaves hheight
  constructor
  · intro hdepth
    refine ⟨p.expression.write, if_neg (Nat.not_lt.mpr hdepth), hread, fun tokens' htokens' => ?_⟩
    obtain rfl := Except.ok.inj (htokens.symm.trans htokens')
    exact hagain
  · exact fun hdepth => if_pos hdepth

end

attribute [local instance] Host.usual

/-- A text with an apostrophe and a line feed in a literal, a path that is named like keywords, a
negative number with zeros in front, and more spaces than are written. -/
def sampleText : Text :=
  ofString "not  not ($and.or == \"it's\\n\") or NULL and -007 <items.0"

/-- What the sample is read as. -/
def sampleExpression : Expression :=
  .either
    (.negation (.negation (.group (.compare .equal (.path (ofString "and") [ofString "or"])
      (.literal (.text (ofString "it's\n")))))))
    (.both (.literal .null)
      (.compare .less (.literal (.int (-7))) (.path (ofString "items") [ofString "0"])))

theorem read_write_sample :
    read Host.reading sampleText = .ok sampleExpression ∧
      (∀ tokens, scan sampleText = .ok tokens → ∀ token ∈ tokens, Whole token) ∧
      Host.writing * sampleExpression.depth ≤ Host.filling ∧
      sampleExpression.written? Host.filling =
        some (ofString "not not ($and.or == \"it's\\n\") or null and -7 < $items.0") ∧
      read Host.reading (ofString "not not ($and.or == \"it's\\n\") or null and -7 < $items.0") =
        .ok sampleExpression := by
  have hscan : scan sampleText = .ok
      [keyword "not" 0, keyword "not" 5, parenthesis '(' 9, ⟨.path, ofString "$and.or", 10⟩,
        sign .equal 18, ⟨.text, ofString "\"it's\\n\"", 21⟩, parenthesis ')' 29,
        keyword "or" 31, keyword "null" 34, keyword "and" 39, ⟨.number, ofString "-007", 43⟩,
        sign .less 48, ⟨.path, ofString "items.0", 49⟩, ⟨.finish, [], 56⟩] := by
    cbv
  have hread : read Host.reading sampleText = .ok sampleExpression := by
    rw [read, hscan]
    cbv
  have hwhole : ∀ tokens, scan sampleText = .ok tokens → ∀ token ∈ tokens, Whole token := by
    intro tokens htokens
    obtain rfl := Except.ok.inj (hscan.symm.trans htokens)
    decide
  have hdepth : Host.writing * sampleExpression.depth ≤ Host.filling := by decide
  have hwritten : sampleExpression.written? Host.filling =
      some (ofString "not not ($and.or == \"it's\\n\") or null and -7 < $items.0") := by cbv
  obtain ⟨written, hsome, hagain, -⟩ :=
    (read_write Host.reading Host.filling sampleText sampleExpression hread hwhole).1 hdepth
  obtain rfl := Option.some.inj (hwritten.symm.trans hsome)
  exact ⟨hread, hwhole, hdepth, hwritten, hagain⟩

/-! ## A chain that is not written -/

/-- The number one, and as many times more. -/
def chain : Nat → Expression
  | 0 => .literal (.int 1)
  | n + 1 => .both (chain n) (.literal (.int 1))

/-- The text of a chain. -/
def chainText (n : Nat) : Text := '1' :: (List.replicate n (ofString " and 1")).flatten

theorem write_chain (n : Nat) : (chain n).write = chainText n := by
  induction n with
  | zero => rfl
  | succ n ih =>
    have hone : write (.literal (.int 1)) = ['1'] := by decide
    have hlink : ofString " and " ++ ['1'] = ofString " and 1" := by decide
    rw [chain, write, ih, chainText, chainText, List.replicate_succ', List.flatten_concat, hone,
      List.append_assoc, hlink]
    rfl

theorem depth_chain (n : Nat) : (chain n).depth = n + 1 := by
  induction n with
  | zero => rfl
  | succ n ih =>
    rw [chain, depth, ih, depth]
    omega

/-- The number one as a negation. -/
def onePhrase : Phrase .negation :=
  .plain (.alone (.leaf ⟨.number, ['1'], 0⟩ (.literal (.int 1)) (by cbv)))

/-- The derivation of a chain. -/
def chainPhrase : Nat → Phrase .conjunction
  | 0 => .single onePhrase
  | n + 1 => .and (chainPhrase n) 0 onePhrase

theorem expression_chainPhrase (n : Nat) : (chainPhrase n).expression = chain n := by
  induction n with
  | zero => rfl
  | succ n ih =>
    rw [chainPhrase, Phrase.expression, ih]
    rfl

theorem allLegible_chainPhrase (n : Nat) : AllLegible (chainPhrase n).tokens := by
  have hone : AllLegible onePhrase.tokens := by
    intro token htoken e h
    obtain rfl := List.mem_singleton.mp htoken
    have hvalue : leaf? ⟨.number, ['1'], 0⟩ = some (.literal (.int 1)) := by cbv
    obtain rfl := Option.some.inj (hvalue.symm.trans h)
    exact .int (Numeral.isWritable_of_read (t := ['1']) (by cbv))
  induction n with
  | zero => exact hone
  | succ n ih =>
    have hand : ∀ e, leaf? (keyword "and" 0) = some e → Legible e := by
      have hnone : leaf? (keyword "and" 0) = none := rfl
      intro e h
      rw [hnone] at h
      cases h
    exact List.forall_mem_append.mpr ⟨ih, List.forall_mem_cons.mpr ⟨hand, hone⟩⟩

/-- A chain takes no calls inside one another. -/
theorem height_chainPhrase (n : Nat) : (chainPhrase n).height = 0 := by
  induction n with
  | zero => rfl
  | succ n ih =>
    rw [chainPhrase, Phrase.height, ih]
    rfl

/-- **A chain of five thousand** is read, but not written. -/
theorem written?_chain :
    ∃ e, read Host.reading (chainText 5000) = .ok e ∧
      (∀ tokens, scan (chainText 5000) = .ok tokens → ∀ token ∈ tokens, Whole token) ∧
      e.written? Host.filling = none := by
  let p : Phrase .expression := .one (chainPhrase 5000)
  have hexpression : p.expression = chain 5000 := expression_chainPhrase 5000
  have hheight : p.height ≤ Host.reading := by
    have hflat : p.height = 0 := height_chainPhrase 5000
    rw [hflat]
    exact Nat.zero_le _
  obtain ⟨hread, tokens, hscan, hwhole⟩ :=
    read_write_of_phrase (p := p) (allLegible_chainPhrase 5000) hheight
  rw [hexpression, write_chain] at hread hscan
  refine ⟨chain 5000, hread, fun tokens' htokens => ?_, if_pos ?_⟩
  · obtain rfl := Except.ok.inj (hscan.symm.trans htokens)
    exact hwhole
  · rw [depth_chain]
    decide

end Expression
end Stencil
