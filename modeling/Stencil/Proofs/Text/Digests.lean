import Stencil.Proofs.Text.Quoting
import Stencil.Text.Sha1
import Stencil.Text.Utf8

/-! # What a digest shows

The forty digits of a digest stand for one digest only (`Sha1.State.hexadecimal_inj`), since each
of its words has eight digits, whatever it is, and can be told from them.  The bytes of a text stand
for one text only (`Utf8.encode_inj`).  So where two texts have the same digits, either they are the
same text, or their bytes are two different rows with one digest.
-/

namespace Stencil

namespace Text

/-- A number is told from its digits, if it has no more of them. -/
theorem hexadecimal_inj {width m n : Nat} (hm : m < 16 ^ width) (hn : n < 16 ^ width)
    (h : hexadecimal width m = hexadecimal width n) : m = n := by
  have hvalues : (hexValues width m).map some = (hexValues width n).map some := by
    rw [← map_hexValue?_hexadecimal, ← map_hexValue?_hexadecimal, h]
  have hdigits : hexValues width m = hexValues width n :=
    (List.map_inj_right fun _ _ => Option.some.inj).mp hvalues
  rw [← ofDigits_hexValues hm, hdigits, ofDigits_hexValues hn]

end Text

/-- Rows written piece by piece are told from what is written, if all pieces have one length. -/
theorem eq_of_flatMap_eq {α β : Type} {f : α → List β} {length : Nat}
    (hlength : ∀ a, (f a).length = length) (hinj : ∀ a b, f a = f b → a = b) {row row' : List α}
    (hrow : row.length = row'.length) (h : row.flatMap f = row'.flatMap f) : row = row' := by
  induction row generalizing row' with
  | nil => exact (List.length_eq_zero_iff.mp hrow.symm).symm
  | cons a rest ih =>
    cases row' with
    | nil => cases hrow
    | cons b rest' =>
      rw [List.flatMap_cons, List.flatMap_cons] at h
      obtain ⟨hfirst, hrest⟩ := List.append_inj h ((hlength a).trans (hlength b).symm)
      have hrow' : rest.length = rest'.length := Nat.succ.inj hrow
      rw [hinj a b hfirst, ih hrow' hrest]

namespace Sha1

theorem length_hexadecimal (s : State) : s.hexadecimal.length = 40 := by
  simp only [State.hexadecimal, List.flatMap_cons, List.flatMap_nil, List.length_append,
    Text.length_hexadecimal, List.length_nil]

/-- **A digest is told from its digits.** -/
theorem State.hexadecimal_inj {s t : State} (h : s.hexadecimal = t.hexadecimal) : s = t := by
  have hword : ∀ v w : UInt32,
      Text.hexadecimal 8 v.toNat = Text.hexadecimal 8 w.toNat → v = w := fun v w hvw =>
    UInt32.toNat_inj.mp (Text.hexadecimal_inj v.toNat_lt w.toNat_lt hvw)
  have hwords := eq_of_flatMap_eq (fun w : UInt32 => Text.length_hexadecimal 8 w.toNat) hword
    (by rfl) h
  cases s
  cases t
  simpa using hwords

/-- SHA-1 does not collide on the bytes of texts. -/
def Separates (sources : List Text) : Prop :=
  ∀ s ∈ sources, ∀ t ∈ sources, digest (Utf8.encode s) = digest (Utf8.encode t) →
    Utf8.encode s = Utf8.encode t

end Sha1

namespace Utf8

/-- **A text is told from its bytes.** -/
theorem encode_inj {s t : Text} (h : encode s = encode t) : s = t := by
  have hbytes : s.utf8Encode = t.utf8Encode := congrArg List.toByteArray h
  have hdecoded := congrArg ByteArray.utf8Decode? hbytes
  rw [List.utf8Decode?_utf8Encode, List.utf8Decode?_utf8Encode] at hdecoded
  exact Array.toList_inj.mpr (Option.some.inj hdecoded)

end Utf8

end Stencil
