import Stencil.Proofs.Expression.Shapes

/-! # Cutting loses nothing

The tokens of a text cover it from an offset to a later one (`Token.Covers`): between them stands
whitespace and nothing else, and each is what the first class that applies takes where it starts.
A text is covered by its tokens to its end; or it is covered up to a character at which no class
applies (`Token.Describes`).

Two facts make this the outcome of `scan` and of nothing else (`Token.scan_eq_iff`).  From any
offset a text is covered up to a place where that cannot go on (`Token.exists_covers`); and over
what is covered, cutting has no choice (`Token.Covers.scanFrom_eq`).  A fault does not reach back:
the tokens before it are those of the text before it (`Token.Covers.truncate`), since a class that
applies where the text is cut short applies in the whole text, except for a numeral, which begins
like no other lexeme.
-/

namespace Stencil
namespace Token
open Text

/-! ## Covering -/

/-- Nothing but whitespace stands between two offsets of a text. -/
def Gap (t : Text) (place stop : Nat) : Prop :=
  place ≤ stop ∧ ∀ k, place ≤ k → k < stop → ∃ c, t[k]? = some c ∧ isBlank c = true

/-- The token of a lexeme: its class and its text as it is, or the keyword that a path spells, in
capitals or not. -/
inductive StandsFor (kind : Kind) (lexeme : Text) (start : Nat) : Token → Prop
  | keyword (hkind : kind = .path) (hword : lowerAscii lexeme ∈ keywords) :
      StandsFor kind lexeme start ⟨.keyword, lowerAscii lexeme, start⟩
  | plain (hplain : ¬ (kind = .path ∧ lowerAscii lexeme ∈ keywords)) :
      StandsFor kind lexeme start ⟨kind, lexeme, start⟩

/-- Tokens cover a text from one offset to another. -/
inductive Covers (t : Text) : Nat → List Token → Nat → Prop
  | gap {place stop : Nat} (hgap : Gap t place stop) : Covers t place [] stop
  | token {place start stop : Nat} {kind : Kind} {lexeme : Text} {token : Token}
      {rest : List Token} (hgap : Gap t place start) (hleads : Leads (t.drop start) kind lexeme)
      (htoken : StandsFor kind lexeme start token)
      (hrest : Covers t (start + lexeme.length) rest stop) : Covers t place (token :: rest) stop

/-- At this offset stands a character that is no whitespace and at which no class applies. -/
def StrangeAt (t : Text) (place : Nat) (c : Char) : Prop :=
  t[place]? = some c ∧ isBlank c = false ∧ ∀ kind ∈ order, ¬ Applies kind (t.drop place)

/-- What the outcome of cutting says about a text. -/
def Describes (t : Text) : Except Fault (List Token) → Prop
  | .ok tokens => ∃ body, tokens = body ++ [⟨.finish, [], t.length⟩] ∧ Covers t 0 body t.length
  | .error fault => StrangeAt t fault.position fault.character ∧
      ∃ body, Covers t 0 body fault.position ∧
        Covers (t.take fault.position) 0 body fault.position

variable {t : Text} {place stop : Nat}

theorem standsFor_iff {kind : Kind} {lexeme : Text} {start : Nat} {token : Token} :
    StandsFor kind lexeme start token ↔ token = ofLexeme kind lexeme start := by
  have hkeyword : (kind = .path && keywords.contains (lowerAscii lexeme)) = true ↔
      kind = .path ∧ lowerAscii lexeme ∈ keywords := by
    simp
  constructor
  · rintro (⟨hkind, hword⟩ | hplain)
    · rw [ofLexeme, if_pos (hkeyword.mpr ⟨hkind, hword⟩)]
    · rw [ofLexeme, if_neg (mt hkeyword.mp hplain)]
  · rintro rfl
    rw [ofLexeme]
    split
    · rename_i h
      exact .keyword (hkeyword.mp h).1 (hkeyword.mp h).2
    · rename_i h
      exact .plain (mt hkeyword.mpr h)

/-! ## Whitespace -/

theorem gap_refl (t : Text) (place : Nat) : Gap t place place :=
  ⟨Nat.le_refl _, fun _ hlow hhigh => absurd hlow (Nat.not_le_of_lt hhigh)⟩

theorem Gap.cons {c : Char} (hc : t[place]? = some c) (hblank : isBlank c = true)
    (h : Gap t (place + 1) stop) : Gap t place stop := by
  refine ⟨Nat.le_of_succ_le h.1, fun k hlow hhigh => ?_⟩
  rcases Nat.eq_or_lt_of_le hlow with rfl | hlow
  · exact ⟨c, hc, hblank⟩
  · exact h.2 k hlow hhigh

/-- Whitespace before what is covered is covered. -/
theorem Covers.cons {body : List Token} {c : Char} (hc : t[place]? = some c)
    (hblank : isBlank c = true) (h : Covers t (place + 1) body stop) :
    Covers t place body stop := by
  cases h with
  | gap hgap => exact .gap (hgap.cons hc hblank)
  | token hgap hleads htoken hrest => exact .token (hgap.cons hc hblank) hleads htoken hrest

theorem drop_eq_cons_iff {c : Char} {rest : Text} :
    t.drop place = c :: rest ↔ t[place]? = some c ∧ t.drop (place + 1) = rest := by
  constructor
  · intro h
    rw [← List.head?_drop, h, List.head?_cons, ← List.drop_drop, h, List.drop_one, List.tail_cons]
    exact ⟨rfl, rfl⟩
  · rintro ⟨hc, rfl⟩
    obtain ⟨hlt, rfl⟩ := List.getElem?_eq_some_iff.mp hc
    exact List.drop_eq_getElem_cons hlt

/-- Cutting passes over whitespace. -/
theorem Gap.scanFrom_eq (h : Gap t place stop) :
    scanFrom place (t.drop place) = scanFrom stop (t.drop stop) := by
  obtain ⟨n, rfl⟩ := Nat.exists_eq_add_of_le h.1
  induction n generalizing place with
  | zero => rfl
  | succ n ih =>
    obtain ⟨c, hc, hblank⟩ := h.2 place (Nat.le_refl _) (by omega)
    have hnext : place + (n + 1) = place + 1 + n := by omega
    rw [hnext] at h ⊢
    rw [drop_eq_cons_iff.mpr ⟨hc, rfl⟩, scanFrom, hblank, if_pos rfl]
    exact ih ⟨Nat.le_add_right _ _, fun k hlow hhigh => h.2 k (Nat.le_of_succ_le hlow) hhigh⟩

/-! ## Over what is covered, cutting has no choice -/

/-- **One step**: what leads the rest of the text is cut off. -/
theorem Leads.scanFrom_eq {kind : Kind} {lexeme : Text} (h : Leads (t.drop place) kind lexeme) :
    scanFrom place (t.drop place) =
      (scanFrom (place + lexeme.length) (t.drop (place + lexeme.length))).map
        (ofLexeme kind lexeme place :: ·) := by
  have hfirst := first?_eq_some_iff.mpr ⟨lexeme, h, rfl⟩
  obtain ⟨after, hdrop, hfit⟩ := h.takes.fits
  obtain ⟨c, rest, rfl, hblank⟩ := hfit.visible
  have hafter : t.drop (place + (c :: rest).length) = after := by
    rw [← List.drop_drop, hdrop, List.drop_left]
  rw [hdrop] at hfirst ⊢
  rw [hafter, List.cons_append, scanFrom, hblank, ← List.cons_append, hfirst]
  simp

theorem map_append_cons (token : Token) (body : List Token)
    (outcome : Except Fault (List Token)) :
    (outcome.map (body ++ ·)).map (token :: ·) = outcome.map (token :: body ++ ·) := by
  cases outcome with
  | error fault => rfl
  | ok tokens => rfl

/-- **Over what is covered, cutting has no choice.** -/
theorem Covers.scanFrom_eq {body : List Token} (h : Covers t place body stop) :
    scanFrom place (t.drop place) = (scanFrom stop (t.drop stop)).map (body ++ ·) := by
  induction h with
  | @gap place stop hgap =>
    rw [hgap.scanFrom_eq]
    cases scanFrom stop (t.drop stop) with
    | error fault => rfl
    | ok tokens => rfl
  | token hgap hleads htoken hrest ih =>
    obtain rfl := standsFor_iff.mp htoken
    rw [hgap.scanFrom_eq, hleads.scanFrom_eq, ih, map_append_cons]

/-! ## A text is covered as far as that can go on -/

/-- **From any offset a text is covered** up to its end or a strange character. -/
theorem exists_covers {rest : Text} (h : t.drop place = rest) :
    ∃ body stop, Covers t place body stop ∧ (t.length ≤ stop ∨ ∃ c, StrangeAt t stop c) := by
  fun_induction scanFrom place rest with
  | case1 place => exact ⟨[], place, .gap (gap_refl t place), Or.inl (List.drop_eq_nil_iff.mp h)⟩
  | case2 place c rest hblank ih =>
    obtain ⟨hc, hrest⟩ := drop_eq_cons_iff.mp h
    obtain ⟨body, stop, hcovers, hstop⟩ := ih hrest
    exact ⟨body, stop, hcovers.cons hc hblank, hstop⟩
  | case3 place c rest hblank hnone =>
    obtain ⟨hc, -⟩ := drop_eq_cons_iff.mp h
    rw [← h] at hnone
    exact ⟨[], place, .gap (gap_refl t place),
      Or.inr ⟨c, hc, Bool.eq_false_iff.mpr hblank, first?_eq_none_iff.mp hnone⟩⟩
  | case4 place c rest hblank kind n hfirst ih =>
    rw [← h] at hfirst
    obtain ⟨lexeme, hleads, rfl⟩ := first?_eq_some_iff.mp hfirst
    obtain ⟨after, hdrop, hfit⟩ := hleads.takes.fits
    have hrest : t.drop (place + lexeme.length) = rest.drop (lexeme.length - 1) := by
      obtain ⟨d, more, rfl, -⟩ := hfit.visible
      rw [← List.drop_drop, h]
      rfl
    obtain ⟨body, stop, hcovers, hstop⟩ := ih hrest
    exact ⟨_, stop, .token (gap_refl t place) hleads (standsFor_iff.mpr rfl) hcovers, hstop⟩

theorem Covers.le {body : List Token} (h : Covers t place body stop) : place ≤ stop := by
  induction h with
  | gap hgap => exact hgap.1
  | token hgap hleads htoken hrest ih =>
    exact Nat.le_trans hgap.1 (Nat.le_trans (Nat.le_add_right _ _) ih)

theorem Gap.stop_le (h : Gap t place stop) (hplace : place ≤ t.length) : stop ≤ t.length := by
  by_contra hover
  obtain ⟨c, hc, -⟩ := h.2 t.length hplace (Nat.lt_of_not_le hover)
  exact absurd (List.getElem?_eq_some_iff.mp hc).1 (Nat.lt_irrefl _)

/-- What is covered is part of the text. -/
theorem Covers.stop_le {body : List Token} (h : Covers t place body stop)
    (hplace : place ≤ t.length) : stop ≤ t.length := by
  induction h with
  | gap hgap => exact hgap.stop_le hplace
  | token hgap hleads htoken hrest ih =>
    have hstart := hgap.stop_le hplace
    obtain ⟨after, hdrop, -⟩ := hleads.takes.fits
    have hlength := congrArg List.length hdrop
    rw [List.length_drop, List.length_append] at hlength
    exact ih (by omega)

/-! ## A text that is cut short -/

/-- A numeral begins with a sign or a digit. -/
theorem Fits.numberStart {lexeme after : Text} (h : Fits .number lexeme after) :
    ∃ c ∈ lexeme.head?, c = '-' ∨ isDecimal c = true := by
  cases h with
  | number hminus hdigits hfraction hends =>
    obtain ⟨c, rest, rfl⟩ := List.exists_cons_of_ne_nil hdigits.1
    rcases hminus with rfl | rfl
    · exact ⟨c, rfl, Or.inr (hdigits.2 c List.mem_cons_self)⟩
    · exact ⟨'-', rfl, Or.inl rfl⟩

/-- No lexeme of a later class does. -/
theorem Fits.not_numberStart {kind : Kind} {lexeme after : Text} (h : Fits kind lexeme after)
    (hkind : kind ≠ .text) (hkind' : kind ≠ .number) :
    ∀ c ∈ lexeme.head?, c ≠ '-' ∧ isDecimal c = false := by
  have hsign : ∀ d : Char, d ≠ '-' ∧ isDecimal d = false →
      ∀ c ∈ some d, c ≠ '-' ∧ isDecimal c = false :=
    fun d hd c hc => Option.some.inj hc ▸ hd
  cases h with
  | text => exact absurd rfl hkind
  | number => exact absurd rfl hkind'
  | comparison c =>
    cases c with
    | equal | unequal | lessOrEqual | greaterOrEqual | less | greater => exact hsign _ (by decide)
  | parenthesis hc =>
    rcases hc with rfl | rfl
    · exact hsign _ (by decide)
    · exact hsign _ (by decide)
  | path hdollar hhead hsteps =>
    obtain ⟨c, rest, rfl, hc, -⟩ := hhead
    rw [join_cons]
    rcases hdollar with rfl | rfl
    · have hbounds := toNat_of_startsName hc
      refine hsign c ⟨?_, isDecimal_eq_false (by omega) (by omega)⟩
      rintro rfl
      exact absurd hc (by decide)
    · exact hsign _ (by decide)

/-- What fits still fits where the text behind it is cut short, -/
theorem Fits.truncate {kind : Kind} {lexeme front back : Text}
    (h : Fits kind lexeme (front ++ back)) : Fits kind lexeme front := by
  cases h with
  | text hquote hinner => exact .text hquote hinner
  | number hminus hdigits hfraction hends =>
    refine .number hminus hdigits hfraction fun c hc => hends c ?_
    rw [List.head?_append, Option.mem_def.mp hc]
    rfl
  | comparison c => exact .comparison c
  | parenthesis hc => exact .parenthesis hc
  | path hdollar hhead hsteps => exact .path hdollar hhead hsteps

/-- and what fits there fits in the whole text, unless it is a numeral. -/
theorem Fits.extend {kind : Kind} {lexeme front : Text} (h : Fits kind lexeme front)
    (hkind : kind ≠ .number) (back : Text) : Fits kind lexeme (front ++ back) := by
  cases h with
  | text hquote hinner => exact .text hquote hinner
  | number => exact absurd rfl hkind
  | comparison c => exact .comparison c
  | parenthesis hc => exact .parenthesis hc
  | path hdollar hhead hsteps => exact .path hdollar hhead hsteps

/-- What a class takes, it takes where the text behind is cut short. -/
theorem Takes.truncate {kind : Kind} {lexeme front back : Text}
    (h : Takes kind (lexeme ++ front ++ back) lexeme) : Takes kind (lexeme ++ front) lexeme := by
  obtain ⟨after, hafter, hfit⟩ := h.fits
  rw [List.append_assoc, List.append_cancel_left_eq] at hafter
  have hfront : Fits kind lexeme front := (hafter ▸ hfit).truncate
  refine ⟨⟨front, rfl, hfront⟩, fun other after' heq hother => ?_⟩
  by_cases hkind : kind = .number
  · subst hkind
    have hlength := hother.numberLength_eq
    rw [← heq, hfront.numberLength_eq] at hlength
    exact Nat.le_of_eq hlength.symm
  · refine h.longest other (after' ++ back) ?_ (hother.extend hkind back)
    rw [heq, List.append_assoc]

/-- Of the classes tried after numerals none is that of quoted literals or of numerals. -/
theorem kind_of_order {kind : Kind} {front back : List Kind} (h : order = front ++ kind :: back)
    (hnumber : .number ∈ front) : kind ≠ .text ∧ kind ≠ .number := by
  have hnodup : (front ++ kind :: back).Nodup := h ▸ by decide
  have hnew : ∀ other ∈ front, kind ≠ other := fun other hother heq =>
    (List.nodup_append.mp hnodup).2.2 other hother kind List.mem_cons_self heq.symm
  cases front with
  | nil => cases hnumber
  | cons first front =>
    obtain rfl : Kind.text = first := (List.cons.inj h).1
    exact ⟨hnew _ List.mem_cons_self, hnew _ hnumber⟩

/-- **What leads a text leads it where it is cut short.** -/
theorem Leads.truncate {kind : Kind} {lexeme front back : Text}
    (h : Leads (lexeme ++ front ++ back) kind lexeme) : Leads (lexeme ++ front) kind lexeme := by
  obtain ⟨before, rest, horder, hbefore⟩ := h.first
  refine ⟨h.takes.truncate, before, rest, horder, fun earlier hearlier => ?_⟩
  rintro ⟨other, after', heq, hother⟩
  by_cases hkind : earlier = .number
  · subst hkind
    obtain ⟨htext, hnumber⟩ := kind_of_order horder hearlier
    obtain ⟨after, -, hfit⟩ := h.takes.fits
    obtain ⟨c, more, rfl, -⟩ := hfit.visible
    obtain ⟨d, rest', rfl, -⟩ := hother.visible
    obtain ⟨hminus, hdigit⟩ := hfit.not_numberStart htext hnumber c rfl
    obtain rfl : c = d := (List.cons.inj heq).1
    obtain ⟨e, he, hstart⟩ := hother.numberStart
    obtain rfl : c = e := Option.some.inj he
    rcases hstart with hsign | hdecimal
    · exact hminus hsign
    · exact absurd (hdigit.symm.trans hdecimal) Bool.noConfusion
  · refine hbefore earlier hearlier ⟨other, after' ++ back, ?_, hother.extend hkind back⟩
    rw [heq, List.append_assoc]

/-- **What is covered is covered where the text behind it is cut off.** -/
theorem Covers.truncate {body : List Token} (h : Covers t place body stop) {n : Nat}
    (hn : stop ≤ n) : Covers (t.take n) place body stop := by
  have hgap : ∀ {place stop : Nat}, Gap t place stop → stop ≤ n → Gap (t.take n) place stop := by
    refine fun hgap hn => ⟨hgap.1, fun k hlow hhigh => ?_⟩
    rw [List.getElem?_take_of_lt (Nat.lt_of_lt_of_le hhigh hn)]
    exact hgap.2 k hlow hhigh
  induction h with
  | gap h => exact .gap (hgap h hn)
  | @token place start stop kind lexeme token rest h hleads htoken hrest ih =>
    have hle := hrest.le
    refine .token (hgap h (by omega)) ?_ htoken (ih hn)
    obtain ⟨after, hdrop, -⟩ := hleads.takes.fits
    have hsplit : t.drop start = lexeme ++ after.take (n - start - lexeme.length) ++
        after.drop (n - start - lexeme.length) := by
      rw [List.append_assoc, List.take_append_drop, hdrop]
    have hshort : (t.take n).drop start = lexeme ++ after.take (n - start - lexeme.length) := by
      rw [List.drop_take, hdrop, List.take_append, List.take_of_length_le (by omega)]
    rw [hshort]
    exact (hsplit ▸ hleads).truncate

/-! ## The outcome of cutting -/

/-- **What is said of a text by an outcome is what cutting it gives.** -/
theorem Describes.scan_eq {outcome : Except Fault (List Token)} (h : Describes t outcome) :
    scan t = outcome := by
  have hcovered : ∀ {body : List Token} {stop : Nat}, Covers t 0 body stop →
      scan t = (scanFrom stop (t.drop stop)).map (body ++ ·) :=
    fun hcovers => hcovers.scanFrom_eq
  cases outcome with
  | ok tokens =>
    obtain ⟨body, rfl, hcovers⟩ := h
    rw [hcovered hcovers, List.drop_length, scanFrom]
    rfl
  | error fault =>
    obtain ⟨⟨hc, hblank, hnone⟩, body, hcovers, -⟩ := h
    have hdrop := drop_eq_cons_iff.mpr ⟨hc, rfl⟩
    have hfirst := first?_eq_none_iff.mpr hnone
    rw [hdrop] at hfirst
    rw [hcovered hcovers, hdrop, scanFrom, hblank, hfirst]
    rfl

/-- Cutting has an outcome that says something about the text. -/
theorem exists_describes (t : Text) : ∃ outcome, Describes t outcome := by
  obtain ⟨body, stop, hcovers, hstop⟩ := exists_covers (List.drop_zero : t.drop 0 = t)
  have hle := hcovers.stop_le (Nat.zero_le _)
  rcases hstop with hend | ⟨c, hstrange⟩
  · obtain rfl : stop = t.length := Nat.le_antisymm hle hend
    exact ⟨.ok _, body, rfl, hcovers⟩
  · exact ⟨.error ⟨c, stop⟩, hstrange, body, hcovers, hcovers.truncate (Nat.le_refl _)⟩

/-- Cutting has the outcome that describes the text. -/
theorem describes_scan (t : Text) : Describes t (scan t) := by
  obtain ⟨outcome, h⟩ := exists_describes t
  exact h.scan_eq ▸ h

/-- **Cutting loses nothing.** A text is cut into tokens exactly if they cover it to its end, each
of them what the first class that applies takes where it starts, with whitespace and nothing else
between them and at both ends, and the end of the text after them; a character is reported exactly
if no class applies at it, it is no whitespace, and tokens cover the text up to it, as they cover
that part of the text alone. -/
theorem scan_eq_iff (t : Text) (outcome : Except Fault (List Token)) :
    scan t = outcome ↔ Describes t outcome := by
  refine ⟨?_, Describes.scan_eq⟩
  rintro rfl
  exact describes_scan t

/-- A numeral that runs on into a word is none, and no other class begins with a digit. -/
example : scan (ofString "$a.b\n1.5x") = .error ⟨'1', 5⟩ := by cbv

/-! ## Spans -/

/-- A token is as long as its lexeme. -/
theorem StandsFor.span {kind : Kind} {lexeme : Text} {start : Nat} {token : Token}
    (h : StandsFor kind lexeme start token) :
    token.position = start ∧ token.text.length = lexeme.length := by
  cases h with
  | keyword hkind hword => exact ⟨rfl, List.length_map _⟩
  | plain hplain => exact ⟨rfl, rfl⟩

/-- **The tokens that cover a text** are not empty, lie in what is covered, and each ends before the
next one starts. -/
theorem Covers.spans {body : List Token} (h : Covers t place body stop) :
    (∀ token ∈ body, place ≤ token.position ∧ token.position + token.text.length ≤ stop ∧
      token.text ≠ []) ∧
    body.Pairwise fun a b => a.position + a.text.length ≤ b.position := by
  induction h with
  | gap hgap => exact ⟨List.forall_mem_nil _, List.Pairwise.nil⟩
  | @token place start stop kind lexeme token rest hgap hleads htoken hrest ih =>
    obtain ⟨hwithin, hordered⟩ := ih
    obtain ⟨hposition, hlength⟩ := htoken.span
    obtain ⟨after, -, hfit⟩ := hleads.takes.fits
    obtain ⟨c, more, rfl, -⟩ := hfit.visible
    have hstart := hgap.1
    have hstop := hrest.le
    have hvisible : token.text ≠ [] :=
      List.ne_nil_of_length_pos (by rw [hlength]; exact Nat.succ_pos _)
    refine ⟨List.forall_mem_cons.mpr ⟨⟨by omega, by omega, hvisible⟩, fun later hlater => ?_⟩,
      List.pairwise_cons.mpr ⟨fun later hlater => ?_, hordered⟩⟩
    · obtain ⟨hlow, hhigh, hne⟩ := hwithin later hlater
      exact ⟨by omega, hhigh, hne⟩
    · have hlow := (hwithin later hlater).1
      omega

/-- The tokens of a text start one after the other. -/
theorem pairwise_position_of_scan {tokens : List Token} (h : scan t = .ok tokens) :
    tokens.Pairwise fun a b => a.position < b.position := by
  have hdescribes : Describes t (.ok tokens) := h ▸ describes_scan t
  obtain ⟨body, rfl, hcovers⟩ := hdescribes
  obtain ⟨hwithin, hordered⟩ := hcovers.spans
  have hlength : ∀ token ∈ body, 0 < token.text.length := fun token htoken =>
    List.length_pos_of_ne_nil (hwithin token htoken).2.2
  refine List.pairwise_append.mpr ⟨?_, List.pairwise_singleton _ _,
    fun token htoken last hlast => ?_⟩
  · refine hordered.imp_of_mem fun ha _ hle => ?_
    have hpositive := hlength _ ha
    omega
  · obtain rfl := List.mem_singleton.mp hlast
    have hpositive := hlength token htoken
    have hhigh := (hwithin token htoken).2.1
    simp only
    omega

end Token
end Stencil
