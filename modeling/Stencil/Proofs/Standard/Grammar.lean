import Mathlib
import Stencil.Library.Standard
import Stencil.Proofs.Document.Soundness
import Stencil.Proofs.Grammar.Registration

/-! # The constructs of the standard grammar

The registry of the standard grammar is a value that was computed by registering three families.
What is to be known of it is read off that value here, once: in which order the families are
preferred, which tags are verbatim, and which handler a tag gets.  A tag that gets a handler is one
of seven constructs, told by the key of its family and by its name (`construct?`), and the handler
does what the construct does (`ofTag_eq_ok`).

An expression that a tag needs is what its text spells without the whitespace around it
(`expression_eq_ok`).
-/

namespace Stencil

/-- What has been trimmed stays as it is. -/
theorem Text.trim_trim (t : Text) : trim (trim t) = trim t := by
  have hend : ∀ u : Text, trimEnd u = u.rdropWhile isBlank := fun _ => rfl
  have hstart : trimStart (trimEnd (trimStart t)) = trimEnd (trimStart t) := by
    have hfirst := List.dropWhile_eq_self_iff.mp (List.dropWhile_idempotent isBlank t)
    -- the end of a text is cut off without touching its first character
    have hbegin : trimEnd (trimStart t) <+: trimStart t := List.rdropWhile_prefix isBlank _
    refine List.dropWhile_eq_self_iff.mpr fun hpos hblank => ?_
    rw [hbegin.getElem hpos] at hblank
    exact hfirst (Nat.lt_of_lt_of_le hpos hbegin.length_le) hblank
  rw [trim, trim, hstart, hend, hend, List.rdropWhile_idempotent]

namespace Standard

/-- What a tag of the standard grammar is for. -/
inductive Construct where
  | comment
  | output
  | conditional
  | alternative
  | otherwise
  | loop (mode : LoopMode)
  | literal
  deriving DecidableEq, Repr

/-- The construct of a tag, by the key of its family and its name. -/
def construct? (family : Value) (name : Option Text) : Option Construct :=
  match family with
  | .text key =>
    match String.ofList key, name.map String.ofList with
    | "comment", none => some .comment
    | "echo", none => some .output
    | "statement", none => some .output
    | "statement", some "foreach" => some (.loop .each)
    | "statement", some "for" => some (.loop .index)
    | "statement", some "if" => some .conditional
    | "statement", some "elseif" => some .alternative
    | "statement", some "else" => some .otherwise
    | "statement", some "literal" => some .literal
    | _, _ => none
  | _ => none

theorem mem_families {family : Family} :
    family ∈ families ↔
      family = commentFamily ∨ family = echoFamily ∨ family = statementFamily := by
  simp [families]

/-- Only statements have names. -/
theorem eq_statementFamily {family : Family} (hfamily : family ∈ families) {spec : TagSpec}
    (hspec : spec ∈ family.tags) : family = statementFamily := by
  rcases mem_families.mp hfamily with rfl | rfl | rfl
  · exact absurd hspec List.not_mem_nil
  · exact absurd hspec List.not_mem_nil
  · rfl

/-- The families are declared in the order in which they are preferred. -/
theorem mergeSort_families : (families.mergeSort fun a b => b.priority ≤ a.priority) = families := by
  apply List.mergeSort_of_pairwise
  simp [families, commentFamily, echoFamily, statementFamily]

/-- The declarations of the standard grammar are what they ought to be. -/
theorem typed_of_mem {family : Family} (h : family ∈ families) : family.Typed := by
  rcases mem_families.mp h with rfl | rfl | rfl
  · exact ⟨.text _, Or.inl rfl, fun _ hs => absurd hs List.not_mem_nil,
      fun _ hs => absurd hs List.not_mem_nil⟩
  · exact ⟨.text _, Or.inl rfl, fun _ hs => absurd hs List.not_mem_nil,
      fun _ hs => absurd hs List.not_mem_nil⟩
  · refine ⟨.text _, Or.inl rfl, fun spec hs => ?_, fun spec hs => ?_⟩ <;>
      · simp only [statementFamily, List.mem_cons, List.not_mem_nil, or_false] at hs
        rcases hs with rfl | rfl | rfl | rfl | rfl | rfl <;>
          first | exact .text _ | exact Or.inl rfl | exact Or.inr (.text _)

theorem wellFormed_families : Family.WellFormed families := by
  have hbuild : Registry.build [] families false = .ok ⟨[], families, [], false⟩ := by cbv
  have hordered : Registry.ordered ⟨[], families, [], false⟩ = families := mergeSort_families
  exact hordered ▸ (Registry.made_build (fun _ h => typed_of_mem h) hbuild).wellFormed

/-- Only a text is the same key as a text, and only the same text. -/
theorem eq_text_of_sameKey {v : Value} {t : Text} (h : Value.sameKey v (.text t) = true) :
    v = .text t := by
  rw [Value.sameKey, Bool.and_eq_true, beq_iff_eq] at h
  obtain ⟨-, h⟩ := h
  cases v with
  | text u => simpa [Value.key?] using h
  | float x =>
    simp only [Value.key?] at h
    split at h <;> cases h
  | moment m =>
    simp only [Value.key?] at h
    split at h <;> cases h
  | _ => simp [Value.key?] at h

/-- The slot of a tag is that of a declared name only if the tag has this name. -/
theorem eq_of_same_named {family : Value} {name : Option Text} {f n : String}
    (h : (Slot.of family name).same ⟨word f, word n⟩ = true) :
    family = word f ∧ name = some (Text.ofString n) := by
  cases name with
  | none => simp [Slot.of, Slot.same, Value.sameKey, word, Value.key?] at h
  | some name =>
    rw [Slot.of, Slot.same, Bool.and_eq_true] at h
    have hname := eq_text_of_sameKey h.2
    exact ⟨eq_text_of_sameKey h.1, by rw [Value.text.inj hname]⟩

/-- The slot of a tag is that of anonymous tags only if the tag has no name. -/
theorem eq_of_same_anonymous {family : Value} {name : Option Text} {f : String}
    (h : (Slot.of family name).same ⟨word f, .null⟩ = true) :
    family = word f ∧ name = none := by
  cases name with
  | none =>
    rw [Slot.of, Slot.same, Bool.and_eq_true] at h
    exact ⟨eq_text_of_sameKey h.1, rfl⟩
  | some name => simp [Slot.of, Slot.same, Value.sameKey, Value.key?] at h

/-- Whether a name of the standard grammar is that of verbatim tags. -/
def isVerbatim (family : Value) (name : Text) : Bool :=
  construct? family (some name) = some .literal

/-- In the standard grammar only literals are verbatim. -/
theorem declaresVerbatim : DeclaresVerbatim isVerbatim families := by
  intro family hfamily spec hspec name hname
  obtain rfl := eq_statementFamily hfamily hspec
  simp only [statementFamily, List.mem_cons, List.not_mem_nil, or_false] at hspec
  rcases hspec with rfl | rfl | rfl | rfl | rfl | rfl
  all_goals
    obtain rfl := Value.text.inj hname
    rfl

variable [Host]

/-- What the handler of a construct makes of a tag that compiles. -/
def Construct.apply : Construct → Occurrence → Fragment → Except CompileFault Fragment
  | .comment => Standard.comment
  | .output => echo
  | .conditional => Standard.conditional
  | .alternative => Standard.alternative
  | .otherwise => Standard.otherwise
  | .loop mode => Standard.loop mode
  | .literal => Standard.literal

/-- What registering the families leaves behind. -/
theorem build_eq :
    build [] true = .ok ⟨library, families,
      [(⟨word "comment", .null⟩, ⟨Text.ofString "comment", comment⟩),
       (⟨word "echo", .null⟩, ⟨Text.ofString "echo", echo⟩),
       (⟨word "statement", .null⟩, ⟨Text.ofString "output", output⟩),
       (⟨word "statement", word "foreach"⟩, ⟨Text.ofString "each", loop .each⟩),
       (⟨word "statement", word "for"⟩, ⟨Text.ofString "for", loop .index⟩),
       (⟨word "statement", word "if"⟩, ⟨Text.ofString "if", conditional⟩),
       (⟨word "statement", word "elseif"⟩, ⟨Text.ofString "elseif", alternative⟩),
       (⟨word "statement", word "else"⟩, ⟨Text.ofString "else", otherwise⟩),
       (⟨word "statement", word "literal"⟩, ⟨Text.ofString "literal", literal⟩)], true⟩ := by
  cbv

theorem build_registry : build [] true = .ok registry := by
  rw [registry, build_eq]

theorem registry_families : registry.families = families := by
  rw [registry, build_eq]

/-- The families are preferred in this order. -/
theorem registry_ordered : registry.ordered = families := by
  rw [Registry.ordered, registry_families, mergeSort_families]

theorem registry_made : registry.Made :=
  Registry.made_build (fun _ h => typed_of_mem h) build_registry

/-- The handlers that registering the families has found. -/
theorem registry_handlers :
    registry.handlers =
      [(⟨word "comment", .null⟩, ⟨Text.ofString "comment", comment⟩),
       (⟨word "echo", .null⟩, ⟨Text.ofString "echo", echo⟩),
       (⟨word "statement", .null⟩, ⟨Text.ofString "output", output⟩),
       (⟨word "statement", word "foreach"⟩, ⟨Text.ofString "each", loop .each⟩),
       (⟨word "statement", word "for"⟩, ⟨Text.ofString "for", loop .index⟩),
       (⟨word "statement", word "if"⟩, ⟨Text.ofString "if", conditional⟩),
       (⟨word "statement", word "elseif"⟩, ⟨Text.ofString "elseif", alternative⟩),
       (⟨word "statement", word "else"⟩, ⟨Text.ofString "else", otherwise⟩),
       (⟨word "statement", word "literal"⟩, ⟨Text.ofString "literal", literal⟩)] := by
  rw [registry, build_eq]

/-- The handler of the tags without name, of each family that has one. -/
theorem handlerFor?_echo :
    registry.handlerFor? (word "echo") none = some ⟨Text.ofString "echo", echo⟩ := by
  rw [Registry.handlerFor?, Registry.handler?, registry_handlers]
  rfl

theorem handlerFor?_statement :
    registry.handlerFor? (word "statement") none = some ⟨Text.ofString "output", output⟩ := by
  rw [Registry.handlerFor?, Registry.handler?, registry_handlers]
  rfl

/-- An output that compiles is an `echo`. -/
theorem echo_of_output {tag : Occurrence} {inner f : Fragment} (h : output tag inner = .ok f) :
    echo tag inner = .ok f := by
  rw [output] at h
  split at h
  · exact h
  · cases h

/-- **A tag that compiles is one of the constructs**, and its fragment is what the construct makes
of it. -/
theorem ofTag_eq_ok {tag : Occurrence} {inner f : Fragment}
    (h : Program.ofTag registry tag inner = .ok f) :
    ∃ construct, construct? tag.head.family tag.head.name = some construct ∧
      construct.apply tag inner = .ok f := by
  rw [Program.ofTag, Registry.handlerFor?, Registry.handler?, registry_handlers] at h
  generalize hfound : List.find? _ _ = found at h
  cases found with
  | none => simp at h
  | some entry =>
    have hsame := List.find?_some hfound
    have hmem := List.mem_of_find?_eq_some hfound
    simp only [Option.map_some] at h
    simp only [List.mem_cons, List.not_mem_nil, or_false] at hmem
    rcases hmem with rfl | rfl | rfl | rfl | rfl | rfl | rfl | rfl | rfl
    · obtain ⟨hf, hn⟩ := eq_of_same_anonymous hsame
      exact ⟨.comment, by rw [hf, hn]; rfl, h⟩
    · obtain ⟨hf, hn⟩ := eq_of_same_anonymous hsame
      exact ⟨.output, by rw [hf, hn]; rfl, h⟩
    · obtain ⟨hf, hn⟩ := eq_of_same_anonymous hsame
      exact ⟨.output, by rw [hf, hn]; rfl, echo_of_output h⟩
    · obtain ⟨hf, hn⟩ := eq_of_same_named hsame
      exact ⟨.loop .each, by rw [hf, hn]; rfl, h⟩
    · obtain ⟨hf, hn⟩ := eq_of_same_named hsame
      exact ⟨.loop .index, by rw [hf, hn]; rfl, h⟩
    · obtain ⟨hf, hn⟩ := eq_of_same_named hsame
      exact ⟨.conditional, by rw [hf, hn]; rfl, h⟩
    · obtain ⟨hf, hn⟩ := eq_of_same_named hsame
      exact ⟨.alternative, by rw [hf, hn]; rfl, h⟩
    · obtain ⟨hf, hn⟩ := eq_of_same_named hsame
      exact ⟨.otherwise, by rw [hf, hn]; rfl, h⟩
    · obtain ⟨hf, hn⟩ := eq_of_same_named hsame
      exact ⟨.literal, by rw [hf, hn]; rfl, h⟩

/-- The expression that a tag needs is the one that its trimmed text spells. -/
theorem expression_eq_ok {head : TagHead} {t : Text} {purpose : Purpose} {e : Expression}
    (h : expression head t purpose = .ok e) :
    Expression.read Host.reading (Text.trim t) = .ok e := by
  rw [expression] at h
  split at h
  · cases h
  · split at h
    · rename_i hread
      rw [hread]
      simpa using h
    all_goals cases h

end Standard
end Stencil
