import Mathlib.Algebra.Group.Nat.Defs
import Stencil.Number.Numeral

/-! # Integers as numerals

An integer is written with ASCII digits and read from digits of any script.  What is written of an
integer is read as that integer, if it has no more digits than a numeral may have (`read_ofInt`);
and every integer that has been read is one of these, since leading zeros and other scripts only
make its numeral longer than what is written of it (`isWritable_of_read`).
-/

namespace Stencil

namespace Text

theorem decimalValue?_of_isDigit {c : Char} (h : c.isDigit = true) :
    decimalValue? c = some (c.toNat - 0x30) := by
  rw [Char.isDigit, Bool.and_eq_true, decide_eq_true_eq, decide_eq_true_eq] at h
  exact if_pos h

theorem isDecimal_of_isDigit {c : Char} (h : c.isDigit = true) : isDecimal c = true := by
  rw [isDecimal, decimalValue?_of_isDigit h]
  rfl

theorem isBlank_of_isDigit {c : Char} (h : c.isDigit = true) : isBlank c = false := by
  rw [Char.isDigit, Bool.and_eq_true, decide_eq_true_eq, decide_eq_true_eq] at h
  have hlow : '0'.toNat ≤ c.toNat := h.1
  have hhigh : c.toNat ≤ '9'.toNat := h.2
  have hbounds : '0'.toNat = 0x30 ∧ '9'.toNat = 0x39 := ⟨rfl, rfl⟩
  simp only [isBlank, Bool.or_eq_false_iff, Bool.and_eq_false_iff, decide_eq_false_iff_not,
    beq_eq_false_iff_ne]
  omega

/-- The value of a decimal digit of any script is below ten. -/
theorem lt_of_decimalValue? {c : Char} {d : Nat} (h : decimalValue? c = some d) : d < 10 := by
  rw [decimalValue?] at h
  split at h
  · rename_i hrange
    have hvalue := Option.some.inj h
    have hnine : c.toNat ≤ '9'.toNat := hrange.2
    have htop : '9'.toNat = 0x39 := rfl
    omega
  · split at h
    · cases h
    · obtain ⟨first, hfirst, rfl⟩ := Option.map_eq_some_iff.mp h
      have hrange := List.find?_some hfirst
      rw [Bool.and_eq_true, decide_eq_true_eq, decide_eq_true_eq] at hrange
      omega

/-- Going over digits from a number on. -/
theorem foldlM_decimalValue?_of_isDigit {digits : Text} (h : ∀ c ∈ digits, c.isDigit = true)
    (start : Nat) :
    digits.foldlM (fun n c => (decimalValue? c).map (10 * n + ·)) start =
      some (Nat.ofDigitChars 10 digits start) := by
  induction digits generalizing start with
  | nil => rw [List.foldlM_nil, Nat.ofDigitChars_nil]; rfl
  | cons c rest ih =>
    obtain ⟨hc, hrest⟩ := List.forall_mem_cons.mp h
    rw [List.foldlM_cons, decimalValue?_of_isDigit hc, Nat.ofDigitChars_cons]
    exact ih hrest _

theorem isDigit_of_mem_ofNat {n : Nat} {c : Char} (h : c ∈ ofNat n) : c.isDigit = true := by
  rw [ofNat, Nat.toList_repr] at h
  exact Nat.isDigit_of_mem_toDigits (by decide) (by decide) h

theorem ofNat_ne_nil (n : Nat) : ofNat n ≠ [] := by
  rw [ofNat, Nat.toList_repr]
  exact Nat.toDigits_ne_nil

/-- What is written of a natural number denotes it. -/
theorem natural?_ofNat (n : Nat) : natural? (ofNat n) = some n := by
  have hfold := foldlM_decimalValue?_of_isDigit (fun c => isDigit_of_mem_ofNat (n := n)) 0
  have hvalue : Nat.ofDigitChars 10 (ofNat n) 0 = n := by
    rw [ofNat, Nat.toList_repr]
    exact Nat.ofDigitChars_ten_toDigits
  cases hdigits : ofNat n with
  | nil => exact absurd hdigits (ofNat_ne_nil n)
  | cons c rest =>
    rw [hdigits] at hfold hvalue
    exact hfold.trans (congrArg some hvalue)

/-- Digits have a value. -/
theorem natural?_of_isDecimal {digits : Text} (hne : digits ≠ [])
    (h : ∀ c ∈ digits, isDecimal c = true) : ∃ n, natural? digits = some n := by
  have hfold : ∀ (digits : Text), (∀ c ∈ digits, isDecimal c = true) → ∀ start : Nat,
      ∃ n, digits.foldlM (fun n c => (decimalValue? c).map (10 * n + ·)) start = some n := by
    intro digits
    induction digits with
    | nil => exact fun _ start => ⟨start, rfl⟩
    | cons c rest ih =>
      intro h start
      obtain ⟨hc, hrest⟩ := List.forall_mem_cons.mp h
      obtain ⟨d, hd⟩ := Option.isSome_iff_exists.mp hc
      rw [List.foldlM_cons, hd]
      exact ih hrest (10 * start + d)
  cases digits with
  | nil => exact absurd rfl hne
  | cons c rest => exact hfold (c :: rest) h 0

/-- A row of digits denotes less than the power of ten with as many zeros. -/
theorem lt_of_natural? {digits : Text} {n : Nat} (h : natural? digits = some n) :
    n < 10 ^ digits.length := by
  have hfold : ∀ (digits : Text) (start n : Nat),
      digits.foldlM (fun n c => (decimalValue? c).map (10 * n + ·)) start = some n →
      n < 10 ^ digits.length * (start + 1) := by
    intro digits
    induction digits with
    | nil =>
      intro start n h
      obtain rfl := Option.some.inj h
      simp
    | cons c rest ih =>
      intro start n h
      rw [List.foldlM_cons] at h
      obtain ⟨next, hnext, hrest⟩ := Option.bind_eq_some_iff.mp h
      obtain ⟨d, hd, rfl⟩ := Option.map_eq_some_iff.mp hnext
      have hten := lt_of_decimalValue? hd
      calc n < 10 ^ rest.length * (10 * start + d + 1) := ih _ _ hrest
        _ ≤ 10 ^ rest.length * (10 * (start + 1)) := Nat.mul_le_mul_left _ (by omega)
        _ = 10 ^ (c :: rest).length * (start + 1) := by
          rw [List.length_cons, Nat.pow_succ, Nat.mul_assoc]
  cases digits with
  | nil => cases h
  | cons c rest =>
    have hlt := hfold (c :: rest) 0 n h
    simpa using hlt

/-- A sign and digits: how an integer is written. -/
theorem ofInt_eq (n : Int) :
    (0 ≤ n ∧ ofInt n = ofNat n.natAbs) ∨ (n < 0 ∧ ofInt n = '-' :: ofNat n.natAbs) := by
  cases n with
  | ofNat n => exact Or.inl ⟨Int.natCast_nonneg n, rfl⟩
  | negSucc n => exact Or.inr ⟨Int.negSucc_lt_zero n, rfl⟩

end Text

namespace Numeral
open Text

theorem ne_of_isDecimal {c d : Char} (hd : Text.isDecimal d = false)
    (hc : Text.isDecimal c = true) : c ≠ d := by
  rintro rfl
  exact absurd (hd.symm.trans hc) Bool.noConfusion

/-- Digits are read to their end. -/
theorem digits?_of_isDecimal {digits : Text} (h : ∀ c ∈ digits, Text.isDecimal c = true)
    (after : Bool) : digits? after digits = some (digits, []) := by
  induction digits generalizing after with
  | nil => rfl
  | cons c rest ih =>
    obtain ⟨hc, hrest⟩ := List.forall_mem_cons.mp h
    have hunderscore : c ≠ '_' := ne_of_isDecimal (by decide) hc
    cases rest <;> simp_all [digits?]

/-- What a sign and decimal digits are read as. -/
theorem read_of_natural? {minus digits : Text} (hminus : minus = [] ∨ minus = ['-'])
    (hdigits : ∀ c ∈ digits, Text.isDecimal c = true)
    (hblank : ∀ c ∈ (minus ++ digits).head?, Text.isBlank c = false) {n : Nat}
    (hn : Text.natural? digits = some n) :
    read (minus ++ digits) =
      if digits.length > longest then .error (.tooLong digits.length)
      else .ok (if minus = [] then (n : Int) else -n) := by
  have hstart : (minus ++ digits).dropWhile isPadding = minus ++ digits := by
    cases hall : minus ++ digits with
    | nil => rfl
    | cons c rest =>
      have hc : Text.isBlank c = false := hblank c (by rw [hall]; rfl)
      exact List.dropWhile_cons_of_neg (by simp [isPadding, hc])
  have hsign : sign (minus ++ digits) = (!minus.isEmpty, digits) := by
    rcases hminus with rfl | rfl
    · cases digits with
      | nil => rfl
      | cons c rest =>
        have hc := hdigits c List.mem_cons_self
        have hminus : c ≠ '-' := ne_of_isDecimal (by decide) hc
        have hplus : c ≠ '+' := ne_of_isDecimal (by decide) hc
        simp [sign, hminus, hplus]
    · rfl
  rw [read, hstart, hsign]
  simp only [digits?_of_isDecimal hdigits false, hn]
  rcases hminus with rfl | rfl
  · rfl
  · rfl

/-- **A numeral of decimal digits can be read unless there are too many of them.** -/
theorem read_eq_error {minus digits : Text} (hminus : minus = [] ∨ minus = ['-'])
    (hne : digits ≠ []) (hdigits : ∀ c ∈ digits, Text.isDecimal c = true)
    (hblank : ∀ c ∈ (minus ++ digits).head?, Text.isBlank c = false) {fault : Fault}
    (h : read (minus ++ digits) = .error fault) :
    fault = .tooLong digits.length ∧ longest < digits.length := by
  obtain ⟨n, hn⟩ := natural?_of_isDecimal hne hdigits
  rw [read_of_natural? hminus hdigits hblank hn] at h
  split at h
  · rename_i hlong
    exact ⟨(Except.error.inj h).symm, hlong⟩
  · cases h

/-- **Reading undoes writing**, for integers of not too many digits. -/
theorem read_ofInt {n : Int} (h : isWritable n = true) : read (ofInt n) = .ok n := by
  have hdecimal : ∀ c ∈ ofNat n.natAbs, isDecimal c = true := fun c hc =>
    isDecimal_of_isDigit (isDigit_of_mem_ofNat hc)
  have hlength : ¬ (ofNat n.natAbs).length > longest := by
    rw [isWritable, decide_eq_true_eq] at h
    -- the bound itself does not matter, and its power of ten is not to be computed
    generalize hbound : longest = bound at h ⊢
    have hpositive : 0 < bound := hbound ▸ (by decide)
    rw [ofNat, Nat.toList_repr]
    exact Nat.not_lt.mpr ((Nat.length_toDigits_le_iff (by decide) hpositive).mpr h)
  rcases ofInt_eq n with ⟨hsign, hshape⟩ | ⟨hsign, hshape⟩
  · have hblank : ∀ c ∈ ([] ++ ofNat n.natAbs).head?, isBlank c = false := fun c hc =>
      isBlank_of_isDigit (isDigit_of_mem_ofNat (List.mem_of_mem_head? hc))
    have hread := read_of_natural? (Or.inl rfl) hdecimal hblank (natural?_ofNat n.natAbs)
    rw [hshape, ← List.nil_append (ofNat n.natAbs), hread, if_neg hlength, if_pos rfl,
      Int.natAbs_of_nonneg hsign]
  · have hblank : ∀ c ∈ (['-'] ++ ofNat n.natAbs).head?, isBlank c = false := by
      intro c hc
      obtain rfl : '-' = c := Option.some.inj hc
      decide
    have hread := read_of_natural? (Or.inr rfl) hdecimal hblank (natural?_ofNat n.natAbs)
    have hvalue : -(n.natAbs : Int) = n := by omega
    rw [hshape, ← List.singleton_append, hread, if_neg hlength, if_neg (by simp), hvalue]

/-- **What has been read can be written.** -/
theorem isWritable_of_read {t : Text} {n : Int} (h : read t = .ok n) : isWritable n = true := by
  rw [read] at h
  generalize sign (t.dropWhile isPadding) = signed at h
  obtain ⟨negative, rest⟩ := signed
  simp only at h
  split at h
  · cases h
  · rename_i digits more hdigits
    split at h
    · cases h
    · rename_i hlong
      split at h
      · cases h
      · split at h
        · cases h
        · rename_i m hm
          have hvalue := Except.ok.inj h
          have habs : n.natAbs = m := by
            rw [← hvalue]
            split
            · omega
            · omega
          rw [isWritable, decide_eq_true_eq, habs]
          generalize longest = bound at hlong ⊢
          have hpow : 10 ^ digits.length ≤ 10 ^ bound :=
            Nat.pow_le_pow_right (by decide) (Nat.le_of_not_lt hlong)
          exact Nat.lt_of_lt_of_le (lt_of_natural? hm) hpow

end Numeral
end Stencil
