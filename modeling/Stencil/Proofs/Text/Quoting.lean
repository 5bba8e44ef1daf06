import Mathlib.Algebra.Group.Nat.Defs
import Mathlib.Data.List.Induction
import Stencil.Text.Quoted

/-! # Quoted text is read back

A row of code points between quotes, with everything unprintable escaped, stands for these code
points again (`Text.unquote_quotedPoints`).  The readers that go over the written form get past the
escape of one code point without looking at what follows: the one that seeks a broken line
(`brokenLine_escaped`) and the one that decodes (`unescape_escaped`).  They agree because an escape
is never more than a backslash, a letter and as many hexadecimal digits as the letter asks for
(`Escaped`).

In the other direction, whatever a literal stands for are code points (`le_of_mem_unquote`), so that
what has been read can be written and read again.
-/

namespace Stencil

/-- What a result that has been changed was before. -/
theorem map_eq_ok_iff {ε α β : Type} {f : α → β} {result : Except ε α} {b : β} :
    result.map f = .ok b ↔ ∃ a, result = .ok a ∧ f a = b := by
  cases result with
  | error fault => exact ⟨fun h => (nomatch h), fun ⟨_, h, _⟩ => (nomatch h)⟩
  | ok a =>
    constructor
    · intro h
      exact ⟨a, rfl, Except.ok.inj h⟩
    · rintro ⟨a', ha, rfl⟩
      rw [Except.ok.inj ha]
      rfl

namespace Text

/-- The greatest code point. -/
def lastPoint : Nat := 0x10FFFF

theorem toNat_le_lastPoint (c : Char) : c.toNat ≤ lastPoint := by
  have hvalid := c.valid
  simp only [lastPoint, Char.toNat]
  rcases hvalid with hlow | ⟨-, hhigh⟩
  · omega
  · omega

/-! ## Hexadecimal digits -/

theorem hexValue?_hexDigit : ∀ n < 16, hexValue? (hexDigit n) = some n := by decide

/-- A hexadecimal digit is an ordinary character: no quote, no backslash and no line break. -/
theorem hexDigit_ordinary : ∀ n < 16,
    hexDigit n ≠ '\\' ∧ hexDigit n ≠ '\'' ∧ hexDigit n ≠ '"' ∧ breaksLine (hexDigit n) = false ∧
      hexDigit n ≠ Char.ofNat 0 := by decide

theorem length_hexadecimal (width n : Nat) : (hexadecimal width n).length = width := by
  induction width generalizing n with
  | zero => rfl
  | succ width ih => rw [hexadecimal, List.length_append, ih, List.length_singleton]

/-- The digits of a number, by value. -/
def hexValues : Nat → Nat → List Nat
  | 0, _ => []
  | width + 1, n => hexValues width (n / 16) ++ [n % 16]

theorem map_hexValue?_hexadecimal (width n : Nat) :
    (hexadecimal width n).map hexValue? = (hexValues width n).map some := by
  induction width generalizing n with
  | zero => rfl
  | succ width ih =>
    have hlast : hexValue? (hexDigit (n % 16)) = some (n % 16) :=
      hexValue?_hexDigit _ (Nat.mod_lt n (by decide))
    simp only [hexadecimal, hexValues, List.map_append, ih, List.map_cons, List.map_nil, hlast]

theorem length_hexValues (width n : Nat) : (hexValues width n).length = width := by
  induction width generalizing n with
  | zero => rfl
  | succ width ih => rw [hexValues, List.length_append, ih, List.length_singleton]

/-- The digits of a number that has no more of them spell it. -/
theorem ofDigits_hexValues {width n : Nat} (h : n < 16 ^ width) :
    ofDigits 16 (hexValues width n) = n := by
  induction width generalizing n with
  | zero =>
    have hzero : n = 0 := by simpa using h
    rw [hzero]
    rfl
  | succ width ih =>
    have hfront : n / 16 < 16 ^ width := by
      rw [Nat.pow_succ] at h
      omega
    rw [hexValues, ofDigits, List.foldl_append]
    have hvalue := ih hfront
    rw [ofDigits] at hvalue
    rw [hvalue, List.foldl_cons, List.foldl_nil]
    omega

theorem mem_hexadecimal {width n : Nat} {c : Char} (h : c ∈ hexadecimal width n) :
    ∃ d < 16, c = hexDigit d := by
  induction width generalizing n with
  | zero => cases h
  | succ width ih =>
    rw [hexadecimal] at h
    rcases List.mem_append.mp h with hfront | hlast
    · exact ih hfront
    · exact ⟨n % 16, Nat.mod_lt n (by decide), List.mem_singleton.mp hlast⟩

/-! ## The shapes of an escape -/

/-- All that a code point may be shown as between two quotes. -/
inductive Escaped (quote : Char) : Nat → Text → Prop
  /-- A printable character other than the quote and the backslash, as it is, -/
  | plain {c : Char} (hquote : c ≠ quote) (hbackslash : c ≠ '\\') (hbreak : breaksLine c = false)
      (hnull : c ≠ Char.ofNat 0) : Escaped quote c.toNat [c]
  /-- or a backslash and a letter, -/
  | simple {letter c : Char} (hletter : simpleEscape? letter = some c)
      (hbreak : breaksLine letter = false) (hnull : letter ≠ Char.ofNat 0) :
      Escaped quote c.toNat ['\\', letter]
  /-- or the number of the code point behind a backslash and a letter. -/
  | numbered {letter : Char} {width n : Nat} (hletter : escapeWidth? letter = some width)
      (hlast : n ≤ lastPoint) (hwidth : n < 16 ^ width) :
      Escaped quote n ('\\' :: letter :: hexadecimal width n)

/-- A quote is one of the two. -/
def IsQuote (c : Char) : Prop := c = '\'' ∨ c = '"'

theorem isQuote_quoteFor (t : Text) : IsQuote (quoteFor t) := by
  rw [quoteFor]
  split
  · exact Or.inr rfl
  · exact Or.inl rfl

theorem breaksLine_of_isPrintable {c : Char} (h : isPrintable c = true) :
    breaksLine c = false ∧ c ≠ Char.ofNat 0 := by
  have hne : ∀ d : Char, isPrintable d = false → c ≠ d := by
    rintro d hd rfl
    exact absurd (hd.symm.trans h) Bool.false_ne_true
  have hfeed := hne '\n' (by decide)
  have hreturn := hne '\r' (by decide)
  exact ⟨by simp [breaksLine, hfeed, hreturn], hne _ (by decide)⟩

/-- The width of a numeric escape is enough for what is written with it. -/
theorem escaped_escape {quote : Char} (hquote : IsQuote quote) (c : Char) :
    Escaped quote c.toNat (escape quote c) := by
  have hlast := toNat_le_lastPoint c
  rw [escape]
  split
  · rename_i hspecial
    -- a quote or a backslash is its own letter
    rcases Bool.or_eq_true_iff.mp hspecial with heq | heq
    · obtain rfl := of_decide_eq_true heq
      rcases hquote with rfl | rfl
      · exact .simple rfl (by decide) (by decide)
      · exact .simple rfl (by decide) (by decide)
    · obtain rfl := of_decide_eq_true heq
      exact .simple rfl (by decide) (by decide)
  · rename_i hordinary
    simp only [Bool.or_eq_true, decide_eq_true_eq, not_or] at hordinary
    split
    · rename_i heq
      rw [heq]
      exact .simple rfl (by decide) (by decide)
    · split
      · rename_i heq
        rw [heq]
        exact .simple rfl (by decide) (by decide)
      · split
        · rename_i heq
          rw [heq]
          exact .simple rfl (by decide) (by decide)
        · split
          · rename_i hprintable
            obtain ⟨hbreak, hnull⟩ := breaksLine_of_isPrintable hprintable
            exact .plain hordinary.1 hordinary.2 hbreak hnull
          · split
            · rename_i hsmall
              exact .numbered rfl hlast (by omega)
            · split
              · rename_i hsmall
                exact .numbered rfl hlast (by omega)
              · refine .numbered rfl hlast (Nat.lt_of_le_of_lt hlast ?_)
                decide

/-- **Each code point is shown in one of the shapes.** -/
theorem escaped_escapePoint {quote : Char} (hquote : IsQuote quote) {n : Nat}
    (hn : n ≤ lastPoint) : Escaped quote n (escapePoint quote n) := by
  rw [escapePoint]
  split
  · rename_i hsurrogate
    simp only [isSurrogate, Bool.and_eq_true, decide_eq_true_eq] at hsurrogate
    exact .numbered rfl hn (by omega)
  · rename_i hcharacter
    have hvalid : n.isValidChar := by
      simp only [isSurrogate, Bool.and_eq_true, decide_eq_true_eq] at hcharacter
      simp only [lastPoint] at hn
      simp only [Nat.isValidChar]
      omega
    have hnumber : (Char.ofNat n).toNat = n := by
      rw [Char.ofNat, dif_pos hvalid]
      rfl
    have hescaped := escaped_escape hquote (Char.ofNat n)
    rwa [hnumber] at hescaped

/-! ## Decoding -/

variable {named : Text → Option Char}

theorem unescape_plain {c : Char} (hc : c ≠ '\\') (place : Nat) (rest : Text) :
    unescape named place (c :: rest) =
      (unescape named (place + escapedPlaces c) rest).map (c.toNat :: ·) := by
  rw [unescape]
  rintro d more rfl
  exact absurd rfl hc

/-- **Decoding passes the escape of a code point** and gives the code point. -/
theorem unescape_escaped {quote : Char} {n : Nat} {shown : Text} (h : Escaped quote n shown)
    (place : Nat) (rest : Text) :
    ∃ after, unescape named place (shown ++ rest) = (unescape named after rest).map (n :: ·) := by
  cases h with
  | plain hquote hbackslash hbreak hnull => exact ⟨_, unescape_plain hbackslash place rest⟩
  | @simple letter c hletter hbreak hnull =>
    have hname : letter ≠ 'N' := by
      rintro rfl
      cases hletter
    refine ⟨place + 2, ?_⟩
    rw [List.cons_append, List.cons_append, List.nil_append, unescape, hbreak]
    simp only [hletter, hname, Bool.false_eq_true, if_false]
  | @numbered letter width n hletter hlast hwidth =>
    refine ⟨place + 2 + width, ?_⟩
    have hnumeric : simpleEscape? letter = none ∧ breaksLine letter = false ∧ letter ≠ 'N' := by
      unfold escapeWidth? at hletter
      split at hletter
      · exact ⟨rfl, by decide⟩
      · exact ⟨rfl, by decide⟩
      · exact ⟨rfl, by decide⟩
      · cases hletter
    have htake : (hexadecimal width n ++ rest).take width = hexadecimal width n :=
      List.take_left' (length_hexadecimal width n)
    have hdrop : (hexadecimal width n ++ rest).drop width = rest :=
      List.drop_left' (length_hexadecimal width n)
    have hdigits : ((((hexadecimal width n ++ rest).take width).map hexValue?).takeWhile
        (·.isSome)).filterMap id = hexValues width n := by
      rw [htake, map_hexValue?_hexadecimal]
      have hall : ((hexValues width n).map some).takeWhile (·.isSome) =
          (hexValues width n).map some := by
        induction hexValues width n with
        | nil => rfl
        | cons d digits ih => rw [List.map_cons, List.takeWhile_cons_of_pos rfl, ih]
      rw [hall, List.filterMap_map]
      simp
    rw [List.cons_append, List.cons_append, unescape, hnumeric.2.1]
    simp only [Bool.false_eq_true, if_false, hnumeric.1, hnumeric.2.2, hletter, hdigits,
      length_hexValues, Nat.lt_irrefl, ofDigits_hexValues hwidth]
    rw [if_neg (show ¬ n > 0x10FFFF from Nat.not_lt.mpr hlast), hdrop]

/-- What is written of code points stands for them. -/
theorem unescape_flatMap {quote : Char} (hquote : IsQuote quote) {codes : List Nat}
    (hcodes : ∀ n ∈ codes, n ≤ lastPoint) (place : Nat) :
    unescape named place (codes.flatMap (escapePoint quote)) = .ok codes := by
  induction codes generalizing place with
  | nil => rw [List.flatMap_nil, unescape]
  | cons n codes ih =>
    obtain ⟨hn, hrest⟩ := List.forall_mem_cons.mp hcodes
    obtain ⟨after, hafter⟩ := unescape_escaped (escaped_escapePoint hquote hn) place
      (codes.flatMap (escapePoint quote))
    rw [List.flatMap_cons, hafter, ih hrest after]
    rfl

/-! ## Lines and null characters -/

theorem brokenLine_plain {c : Char} (hc : c ≠ '\\') (hbreak : breaksLine c = false) (line : Nat)
    (rest : Text) : brokenLine line (c :: rest) = brokenLine line rest := by
  rw [brokenLine, hbreak]
  · rfl
  · rintro d more rfl
    exact absurd rfl hc

theorem brokenLine_append {t : Text} (h : ∀ c ∈ t, c ≠ '\\' ∧ breaksLine c = false) (line : Nat)
    (rest : Text) : brokenLine line (t ++ rest) = brokenLine line rest := by
  induction t with
  | nil => rfl
  | cons c t ih =>
    obtain ⟨⟨hc, hbreak⟩, hrest⟩ := List.forall_mem_cons.mp h
    rw [List.cons_append, brokenLine_plain hc hbreak, ih hrest]

theorem hexadecimal_ordinary {width n : Nat} {c : Char} (h : c ∈ hexadecimal width n) :
    c ≠ '\\' ∧ c ≠ '\'' ∧ c ≠ '"' ∧ breaksLine c = false ∧ c ≠ Char.ofNat 0 := by
  obtain ⟨d, hd, rfl⟩ := mem_hexadecimal h
  exact hexDigit_ordinary d hd

/-- The letters of numeric escapes are ordinary characters. -/
theorem escapeWidth?_ordinary {letter : Char} {width : Nat} (h : escapeWidth? letter = some width) :
    breaksLine letter = false ∧ letter ≠ Char.ofNat 0 := by
  unfold escapeWidth? at h
  split at h
  · exact ⟨by decide, by decide⟩
  · exact ⟨by decide, by decide⟩
  · exact ⟨by decide, by decide⟩
  · cases h

/-- **No escape breaks a line.** -/
theorem brokenLine_escaped {quote : Char} {n : Nat} {shown : Text} (h : Escaped quote n shown)
    (line : Nat) (rest : Text) : brokenLine line (shown ++ rest) = brokenLine line rest := by
  cases h with
  | plain hquote hbackslash hbreak hnull => exact brokenLine_plain hbackslash hbreak line rest
  | simple hletter hbreak hnull =>
    rw [List.cons_append, List.cons_append, List.nil_append, brokenLine, hbreak]
    rfl
  | numbered hletter hlast hwidth =>
    rw [List.cons_append, List.cons_append, brokenLine, (escapeWidth?_ordinary hletter).1]
    refine brokenLine_append (fun c hc => ?_) line rest
    have hordinary := hexadecimal_ordinary hc
    exact ⟨hordinary.1, hordinary.2.2.2.1⟩

theorem brokenLine_flatMap {quote : Char} (hquote : IsQuote quote) {codes : List Nat}
    (hcodes : ∀ n ∈ codes, n ≤ lastPoint) (line : Nat) :
    brokenLine line (codes.flatMap (escapePoint quote)) = .ok line := by
  induction codes with
  | nil => rw [List.flatMap_nil, brokenLine]
  | cons n codes ih =>
    obtain ⟨hn, hrest⟩ := List.forall_mem_cons.mp hcodes
    rw [List.flatMap_cons, brokenLine_escaped (escaped_escapePoint hquote hn), ih hrest]

/-- **No escape holds a null character.** -/
theorem null_notMem_escaped {quote : Char} {n : Nat} {shown : Text} (h : Escaped quote n shown) :
    Char.ofNat 0 ∉ shown := by
  cases h with
  | plain hquote hbackslash hbreak hnull => exact fun hmem => hnull (List.mem_singleton.mp hmem).symm
  | simple hletter hbreak hnull =>
    intro hmem
    rcases List.mem_cons.mp hmem with heq | hmem
    · exact absurd heq (by decide)
    · exact hnull (List.mem_singleton.mp hmem).symm
  | numbered hletter hlast hwidth =>
    intro hmem
    rcases List.mem_cons.mp hmem with heq | hmem
    · exact absurd heq (by decide)
    · rcases List.mem_cons.mp hmem with heq | hmem
      · exact (escapeWidth?_ordinary hletter).2 heq.symm
      · exact (hexadecimal_ordinary hmem).2.2.2.2 rfl

/-- **Reading undoes quoting.** -/
theorem unquote_quotedPoints {codes : List Nat} (hcodes : ∀ n ∈ codes, n ≤ lastPoint) :
    unquote named (quotedPoints codes) = .ok codes := by
  have hquote := isQuote_quoteFor (codes.map Char.ofNat)
  have hinner : ((quotedPoints codes).drop 1).dropLast =
      codes.flatMap (escapePoint (quoteFor (codes.map Char.ofNat))) := by
    rw [quotedPoints, List.drop_succ_cons, List.drop_zero, List.dropLast_concat]
  have hnull : (codes.flatMap (escapePoint (quoteFor (codes.map Char.ofNat)))).contains
      (Char.ofNat 0) = false := by
    rw [List.contains_eq_mem, decide_eq_false_iff_not, List.mem_flatMap]
    rintro ⟨n, hn, hmem⟩
    exact null_notMem_escaped (escaped_escapePoint hquote (hcodes n hn)) hmem
  rw [unquote, hinner]
  simp only [hnull, Bool.false_eq_true, if_false, brokenLine_flatMap hquote hcodes,
    unescape_flatMap hquote hcodes]
  rfl

/-- A text is quoted as its code points are. -/
theorem quoted_map_ofNat {codes : List Nat} (h : codes.any isSurrogate = false) :
    quoted (codes.map Char.ofNat) = quotedPoints codes := by
  have hescape : (codes.map Char.ofNat).flatMap (escape (quoteFor (codes.map Char.ofNat))) =
      codes.flatMap (escapePoint (quoteFor (codes.map Char.ofNat))) := by
    rw [List.flatMap_map, List.flatMap_def, List.flatMap_def]
    refine congrArg List.flatten (List.map_congr_left fun n hn => ?_)
    have hcharacter : isSurrogate n = false := by
      simpa using List.any_eq_false.mp h n hn
    rw [escapePoint, hcharacter]
    rfl
  rw [quoted, quotedPoints, hescape]

/-! ## What a literal stands for -/

theorem ofDigits_lt {base : Nat} {digits : List Nat} (h : ∀ d ∈ digits, d < base) :
    ofDigits base digits < base ^ digits.length := by
  induction digits using List.reverseRecOn with
  | nil => exact Nat.one_pos
  | append_singleton digits d ih =>
    have hd : d < base := h d (by simp)
    have hfront := ih fun e he => h e (List.mem_append_left _ he)
    rw [ofDigits] at hfront ⊢
    rw [List.foldl_append, List.foldl_cons, List.foldl_nil, List.length_append,
      List.length_singleton, Nat.pow_succ, Nat.mul_comm (base ^ digits.length)]
    calc base * digits.foldl (base * · + ·) 0 + d
        < base * (digits.foldl (base * · + ·) 0 + 1) := by rw [Nat.mul_succ]; omega
      _ ≤ base * base ^ digits.length := Nat.mul_le_mul_left base hfront

theorem octalDigits_spec (t : Text) :
    (octalDigits t).length ≤ 3 ∧ ∀ d ∈ octalDigits t, d < 8 := by
  constructor
  · have hfilter := List.length_filterMap_le id (((t.take 3).map octalValue?).takeWhile (·.isSome))
    have hwhile := (List.takeWhile_prefix (l := (t.take 3).map octalValue?) (·.isSome)).length_le
    have htake : ((t.take 3).map octalValue?).length ≤ 3 := by
      rw [List.length_map, List.length_take]
      omega
    exact Nat.le_trans hfilter (Nat.le_trans hwhile htake)
  · intro d hd
    obtain ⟨value, hvalue, hid⟩ := List.mem_filterMap.mp hd
    obtain rfl : value = some d := hid
    obtain ⟨c, -, hc⟩ := List.mem_map.mp ((List.takeWhile_prefix _).subset hvalue)
    unfold octalValue? at hc
    split at hc
    · rename_i hrange
      have hvalue := Option.some.inj hc
      have hseven : c.toNat ≤ '7'.toNat := hrange.2
      have htop : '7'.toNat = 0x37 := rfl
      omega
    · cases hc

/-- **Decoding gives code points.** -/
theorem le_of_mem_unescape {place : Nat} {t : Text} {codes : List Nat}
    (h : unescape named place t = .ok codes) : ∀ n ∈ codes, n ≤ lastPoint := by
  -- what an escape gives is put in front of what the rest gives
  have hcons : ∀ {x : Nat} {result : Except EscapeFault (List Nat)} {codes : List Nat},
      x ≤ lastPoint → (∀ more, result = .ok more → ∀ n ∈ more, n ≤ lastPoint) →
      result.map (x :: ·) = .ok codes → ∀ n ∈ codes, n ≤ lastPoint := by
    intro x result codes hx hmore h
    obtain ⟨more, hresult, rfl⟩ := map_eq_ok_iff.mp h
    exact List.forall_mem_cons.mpr ⟨hx, hmore more hresult⟩
  fun_induction unescape named place t generalizing codes with
  | case1 =>
    obtain rfl := Except.ok.inj h
    exact fun n hn => absurd hn List.not_mem_nil
  | case2 place c rest hbreak ih => exact ih h
  | case3 => cases h
  | case4 =>
    rename_i ih
    exact hcons (toNat_le_lastPoint _) (fun more hmore => ih hmore) h
  | case5 => cases h
  | case6 =>
    rename_i d hsimple ih
    exact hcons (toNat_le_lastPoint d) (fun more hmore => ih hmore) h
  | case7 => cases h
  | case8 => cases h
  | case9 =>
    rename_i hlast ih
    exact hcons (Nat.le_of_not_lt hlast) (fun more hmore => ih hmore) h
  | case10 place c rest =>
    rename_i ih
    obtain ⟨more, hmore, rfl⟩ := map_eq_ok_iff.mp h
    simp only [List.forall_mem_cons]
    exact ⟨toNat_le_lastPoint '\\', toNat_le_lastPoint c, ih hmore⟩
  | case11 place c rest =>
    rename_i ih
    obtain ⟨hlength, hdigits⟩ := octalDigits_spec (c :: rest)
    have hvalue : ofDigits 8 (octalDigits (c :: rest)) < 8 ^ 3 :=
      Nat.lt_of_lt_of_le (ofDigits_lt hdigits) (Nat.pow_le_pow_right (by decide) hlength)
    have hlast : 8 ^ 3 ≤ lastPoint := by decide
    exact hcons (Nat.le_trans (Nat.le_of_lt hvalue) hlast) (fun more hmore => ih hmore) h
  | case12 place c rest hplain ih =>
    exact hcons (toNat_le_lastPoint c) (fun more hmore => ih hmore) h

theorem le_of_mem_unquote {literal : Text} {codes : List Nat}
    (h : unquote named literal = .ok codes) : ∀ n ∈ codes, n ≤ lastPoint := by
  rw [unquote] at h
  split at h
  · cases h
  · split at h
    · cases h
    · generalize hresult : unescape named 0 ((literal.drop 1).dropLast) = result at h
      cases result with
      | error fault => cases h
      | ok codes' => exact Except.ok.inj h ▸ le_of_mem_unescape hresult

end Text
end Stencil
