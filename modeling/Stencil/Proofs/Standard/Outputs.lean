import Stencil.Proofs.Document.Derivation
import Stencil.Proofs.Program.Generation
import Stencil.Proofs.Source.Arguments
import Stencil.Proofs.Source.Naming
import Stencil.Proofs.Standard.Grammar

/-! # The two ways to write an output

The value of an expression is written between braces, or in an `echo` tag.  The two tags belong to
different families, are read in different ways, and are dealt with by different handlers.  For an
expression that starts with a dollar sign they are one: the two templates compile to the same
fragment, or end in the same fault (`compile_braced_eq_echoed`).

What starts with a dollar sign starts with no asterisk, not with `echo`, with no slash and with none
of the names of the standard grammar.  So a brace in front of it opens a statement
(`isFirstAt_braced`), which is read as a tag without name (`reads_braced`), as every `echo` tag is
(`reads_echoed`).  As long as the text has no closing brace, whatever else is in it, the tag is all
of its template (`Segment.cut_delimited`).  Then the handlers of both are asked for the value of the
same expression at the same place, and the one of the statement passes the question on.
-/

namespace Stencil

/-- A text between the delimiters of a family. -/
def Family.delimited (family : Family) (t : Text) : Text := family.opener ++ t ++ family.closer

namespace Text

/-- A closer of one character is found behind a text without it. -/
theorem indexOf?_append_singleton {t : Text} {c : Char} (hc : c ∉ t) :
    indexOf? [c] (t ++ [c]) = some t.length := by
  refine indexOf?_eq_some_iff.mpr ⟨?_, fun j hj hoccurs => hc ?_⟩
  · rw [OccursAt, List.drop_left]
  · obtain ⟨rest, hrest⟩ := hoccurs
    rw [List.drop_append_of_le_length (Nat.le_of_lt hj), List.drop_eq_getElem_cons hj] at hrest
    obtain rfl := (List.cons.inj hrest).1
    exact List.getElem_mem hj

/-- What a text begins with that is no whitespace is what it begins with when it is trimmed. -/
theorem isBlank_or_eq_of_head?_trim {t : Text} {c d : Char} (htrim : (trim t).head? = some c)
    (hhead : t.head? = some d) : isBlank d = true ∨ d = c := by
  obtain ⟨rest, rfl⟩ := List.head?_eq_some_iff.mp hhead
  cases hblank : isBlank d with
  | true => exact Or.inl rfl
  | false =>
    obtain ⟨more, hmore⟩ := List.head?_eq_some_iff.mp htrim
    have hprefix : c :: more <+: trimStart (d :: rest) := hmore ▸ trimEnd_isPrefix _
    rw [trimStart, List.dropWhile_cons_of_neg (by rw [hblank]; exact Bool.false_ne_true)] at hprefix
    exact Or.inr (List.cons_prefix_cons.mp hprefix).1.symm

end Text

section
open Family
variable {families : List Family} {family : Family} {t : Text}

/-- A family that opens at the beginning of a text is the next one. -/
theorem Family.IsFirstAt.next?_eq (h : IsFirstAt families t 0 family) :
    next? families t = some (0, family) :=
  next?_eq_some_iff.mpr ⟨h, fun j hj => absurd hj (Nat.not_lt_zero j)⟩

/-- **A template that is one tag** is cut into one segment. -/
theorem Segment.cut_delimited (hfirst : IsFirstAt families (family.delimited t) 0 family)
    (hclosed : Text.indexOf? family.closer (t ++ family.closer) = some t.length) :
    cut families (family.delimited t) =
      .ok [⟨.tag (some family.key), family.delimited t, .start⟩] := by
  have hsplit : family.delimited t = [] ++ (family.opener ++ t ++ family.closer) ++ [] := by
    rw [List.nil_append, List.append_nil, delimited]
  rw [← List.append_nil (t ++ family.closer)] at hclosed
  rw [cut, cutFrom_of_tag hsplit hfirst.next?_eq hclosed, cutFrom]
  rfl

/-- What such a tag is read as depends on what is between its delimiters. -/
theorem Tag.read_delimited (hfirst : IsFirstAt families (family.delimited t) 0 family) :
    read families (family.delimited t) = ofInner family t := by
  rw [read_of_next? hfirst.next?_eq, delimited, inner_of_delimited]

theorem Tag.readAnonymous_delimited (hkeyed : Keyed families)
    (hfirst : IsFirstAt families (family.delimited t) 0 family) :
    readAnonymous families (some family.key) (family.delimited t) = anonymousOfInner family t := by
  rw [readAnonymous_of_next? hkeyed hfirst.next?_eq, readAnonymousIn, delimited,
    inner_of_delimited]
  rfl

end

/-- The document of one tag without name. -/
theorem Document.ofSegments_anonymous {families : List Family}
    (hfamilies : Family.WellFormed families) {s : Segment} {key : Value} {raw : Text}
    {arguments : Arguments}
    (hread : Segment.Reads families s ⟨s, some (.anonymous key raw arguments)⟩) :
    ofSegments families [s] =
      .ok ⟨[.tag 1 ⟨none, key, arguments, raw, 0, s.position⟩ none []], [s]⟩ := by
  have hreadings : ∀ r ∈ [(⟨s, some (.anonymous key raw arguments)⟩ : Reading)],
      Segment.Reads families r.segment r := List.forall_mem_singleton.mpr hread
  exact Follows.ofSegments_eq hfamilies hreadings rfl ⟨[.anonymous s key raw arguments], rfl, rfl⟩

/-- **A template that is one tag without name** compiles to what the handler makes of the tag. -/
theorem Program.compile_anonymous {registry : Registry}
    (hfamilies : Family.WellFormed registry.ordered) {template : Text} {s : Segment}
    (hcut : Segment.cut registry.ordered template = .ok [s]) {key : Value} {raw : Text}
    {arguments : Arguments}
    (hread : Segment.Reads registry.ordered s ⟨s, some (.anonymous key raw arguments)⟩) :
    compile registry template =
      (ofTag registry ⟨⟨none, key, arguments, raw, 0, s.position⟩, []⟩ []).bind
        fun f => joinAll [f] := by
  have hparse : parse registry template =
      .ok ⟨[.tag 1 ⟨none, key, arguments, raw, 0, s.position⟩ none []], [s]⟩ := by
    simp only [parse, hcut, Document.ofSegments_anonymous hfamilies hread]
    rfl
  simp only [compile, hparse, generate_eq]
  have happly : (rule registry [s]).applyAll
      [.tag 1 ⟨none, key, arguments, raw, 0, s.position⟩ none []] =
        (ofTag registry ⟨⟨none, key, arguments, raw, 0, s.position⟩, []⟩ []).map ([·]) := by
    have hone : (rule registry [s]).apply
        (.tag 1 ⟨none, key, arguments, raw, 0, s.position⟩ none []) =
          ofTag registry ⟨⟨none, key, arguments, raw, 0, s.position⟩, []⟩ [] := rfl
    rw [Rule.applyAll, hone]
    cases ofTag registry ⟨⟨none, key, arguments, raw, 0, s.position⟩, []⟩ [] <;> rfl
  rw [happly]
  cases ofTag registry ⟨⟨none, key, arguments, raw, 0, s.position⟩, []⟩ [] <;> rfl

namespace Standard
open Family

variable {t : Text}

/-! ## Tags without name -/

/-- A brace in front of an expression with a dollar sign opens a statement. -/
theorem isFirstAt_braced (hdollar : (Text.trim t).head? = some '$') :
    IsFirstAt families (statementFamily.delimited t) 0 statementFamily := by
  have hwhole : statementFamily.delimited t = '\x7b' :: (t ++ ['\x7d']) := rfl
  -- behind the brace there is whitespace or the dollar sign
  have hnot : ∀ c : Char, c ≠ '$' → c ≠ '\x7d' → Text.isBlank c = false →
      ∀ more, ¬ '\x7b' :: c :: more <+: statementFamily.delimited t := by
    intro c hdollar' hbrace hblank more hprefix
    rw [hwhole, List.cons_prefix_cons] at hprefix
    cases t with
    | nil => exact hbrace (List.cons_prefix_cons.mp hprefix.2).1
    | cons d rest =>
      obtain rfl := (List.cons_prefix_cons.mp hprefix.2).1
      rcases Text.isBlank_or_eq_of_head?_trim hdollar rfl with h | h
      · exact Bool.false_ne_true (hblank.symm.trans h)
      · exact hdollar' h
  refine ⟨[commentFamily, echoFamily], [], rfl, ⟨t ++ ['\x7d'], rfl⟩, fun f hf => ?_⟩
  simp only [List.mem_cons, List.not_mem_nil, or_false] at hf
  rcases hf with rfl | rfl
  · exact hnot '*' (by decide) (by decide) (by decide) _
  · exact hnot 'e' (by decide) (by decide) (by decide) _

/-- An `echo` tag is one, whatever its text is. -/
theorem isFirstAt_echoed (t : Text) :
    IsFirstAt families (echoFamily.delimited t) 0 echoFamily := by
  refine ⟨[commentFamily], [statementFamily], rfl, ⟨t ++ ['\x7d'], rfl⟩,
    List.forall_mem_singleton.mpr ?_⟩
  rintro ⟨rest, hrest⟩
  cases hrest

/-- No name of the standard grammar stands at the front of an expression with a dollar sign. -/
theorem ofInner_statementFamily (hdollar : (Text.trim t).head? = some '$') :
    Tag.ofInner statementFamily t = .ok none := by
  obtain ⟨rest, hrest⟩ := List.head?_eq_some_iff.mp hdollar
  have hdistinct : (statementFamily.tags.map TagSpec.name).Nodup := by
    simp [statementFamily, tag, word, Text.ofString]
  have htexts : ∀ spec ∈ statementFamily.tags, spec.name.IsText :=
    (typed_of_mem (mem_families.mpr (Or.inr (Or.inr rfl)))).names
  refine (Tag.ofInner_eq_iff rfl htexts hdistinct).mpr (.nothing (fun u hu => ?_) ?_)
  · cases hrest.symm.trans hu
  · intro spec hspec name hname hheads
    obtain ⟨more, hmore, -⟩ := hheads
    have hfront := hrest.symm.trans hmore
    simp only [statementFamily, List.mem_cons, List.not_mem_nil, or_false] at hspec
    rcases hspec with rfl | rfl | rfl | rfl | rfl | rfl
    all_goals
      obtain rfl := Value.text.inj hname
      cases hfront

/-- The tag of an output between braces. -/
theorem reads_braced (hdollar : (Text.trim t).head? = some '$') (position : Position) :
    Segment.Reads families
      ⟨.tag (some (word "statement")), statementFamily.delimited t, position⟩
      ⟨⟨.tag (some (word "statement")), statementFamily.delimited t, position⟩,
        some (.anonymous (word "statement") t [])⟩ := by
  have hfirst := isFirstAt_braced hdollar
  exact .anonymous rfl ((Tag.read_delimited hfirst).trans (ofInner_statementFamily hdollar))
    (Tag.readAnonymous_delimited wellFormed_families.keyed hfirst)

/-- The tag of an output with `echo`. -/
theorem reads_echoed (t : Text) (position : Position) :
    Segment.Reads families
      ⟨.tag (some (word "echo")), echoFamily.delimited t, position⟩
      ⟨⟨.tag (some (word "echo")), echoFamily.delimited t, position⟩,
        some (.anonymous (word "echo") t [])⟩ :=
  .tag rfl (Tag.read_delimited (isFirstAt_echoed t))

/-! ## Compiling -/

section

variable [Host]

/-- What an output that is all of its template compiles to: the value of the expression, or the
fault in it. -/
def outputOf (t : Text) : Except CompileFault Fragment :=
  let source := Text.trim t
  match Expression.read Host.reading source with
  | .ok e => .ok [.expression e source (some .start)]
  | .error (.refused reason _) => .error (.badExpression .expression source reason .start)
  | .error .tooDeep => .error (.deepExpression .expression .start)
  | .error fault => .error (.escaped fault)

/-- The handler of `echo` makes an output of every text that is not blank. -/
theorem echo_anonymous (hdollar : (Text.trim t).head? = some '$') (key : Value) (inner : Fragment) :
    (echo ⟨⟨none, key, [], t, 0, .start⟩, []⟩ inner).bind (fun f => Program.joinAll [f]) =
      outputOf t := by
  have hnonempty : (Text.trim t).isEmpty = false := by
    obtain ⟨rest, hrest⟩ := List.head?_eq_some_iff.mp hdollar
    rw [hrest]
    rfl
  rw [echo, outputOf]
  simp only [expression, Text.trim_trim, hnonempty, Bool.false_eq_true, if_false]
  cases hread : Expression.read Host.reading (Text.trim t) with
  | ok e => rfl
  | error fault => cases fault <;> rfl

/-- The handler of statements without name hands them on if there is a dollar sign. -/
theorem output_eq_echo (hdollar : (Text.trim t).head? = some '$') {tag : Occurrence}
    (hraw : tag.head.raw = t) (inner : Fragment) : output tag inner = echo tag inner := by
  obtain ⟨rest, hrest⟩ := List.head?_eq_some_iff.mp hdollar
  rw [output, hraw, hrest]
  rfl

theorem compile_braced (hclosed : '\x7d' ∉ t) (hdollar : (Text.trim t).head? = some '$') :
    Program.compile registry (statementFamily.delimited t) = outputOf t := by
  have hcut := Segment.cut_delimited (isFirstAt_braced hdollar)
    (Text.indexOf?_append_singleton hclosed)
  rw [← registry_ordered] at hcut
  have hread := reads_braced hdollar .start
  rw [← registry_ordered] at hread
  rw [Program.compile_anonymous (registry_ordered ▸ wellFormed_families) hcut hread,
    ← echo_anonymous hdollar (word "statement") [], ← output_eq_echo hdollar rfl, Program.ofTag,
    handlerFor?_statement]

theorem compile_echoed (hclosed : '\x7d' ∉ t) (hdollar : (Text.trim t).head? = some '$') :
    Program.compile registry (echoFamily.delimited t) = outputOf t := by
  have hcut := Segment.cut_delimited (isFirstAt_echoed t)
    (Text.indexOf?_append_singleton hclosed)
  rw [← registry_ordered] at hcut
  have hread := reads_echoed t .start
  rw [← registry_ordered] at hread
  rw [Program.compile_anonymous (registry_ordered ▸ wellFormed_families) hcut hread,
    ← echo_anonymous hdollar (word "echo") [], Program.ofTag, handlerFor?_echo]

/-- **The two ways to write an output come to the same.**  A text with no closing brace in it that
starts with a dollar sign, but for whitespace, compiles between braces as it does in an `echo` tag:
to the value of the expression, with the same source and position, or to the same fault. -/
theorem compile_braced_eq_echoed (hclosed : '\x7d' ∉ t)
    (hdollar : (Text.trim t).head? = some '$') :
    Program.compile registry ('\x7b' :: (t ++ ['\x7d'])) =
        Program.compile registry (Text.ofString "\x7becho " ++ (t ++ ['\x7d'])) ∧
      Program.compile registry ('\x7b' :: (t ++ ['\x7d'])) = outputOf t := by
  have hbraced := compile_braced hclosed hdollar
  have hechoed := compile_echoed hclosed hdollar
  exact ⟨hbraced.trans hechoed.symm, hbraced⟩

end

attribute [local instance] Host.usual

/-- An expression with a quoted comment in it, and whitespace around it. -/
def quotedComment : Text := Text.ofString " $x == '\x7b* echo' "

/-- The comment is not begun in either of them. -/
theorem compile_braced_eq_echoed_quotedComment :
    '\x7d' ∉ quotedComment ∧ (Text.trim quotedComment).head? = some '$' ∧
      Program.compile registry ('\x7b' :: (quotedComment ++ ['\x7d'])) =
        Program.compile registry (Text.ofString "\x7becho " ++ (quotedComment ++ ['\x7d'])) ∧
      Program.compile registry ('\x7b' :: (quotedComment ++ ['\x7d'])) =
        .ok [.expression
          (.compare .equal (.path ['x'] []) (.literal (.text (Text.ofString "\x7b* echo"))))
          (Text.ofString "$x == '\x7b* echo'") (some .start)] := by
  have hclosed : '\x7d' ∉ quotedComment := by decide
  have hdollar : (Text.trim quotedComment).head? = some '$' := by decide
  obtain ⟨hsame, houtput⟩ := compile_braced_eq_echoed hclosed hdollar
  refine ⟨hclosed, hdollar, hsame, houtput.trans ?_⟩
  cbv

end Standard
end Stencil
