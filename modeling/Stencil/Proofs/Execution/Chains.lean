import Stencil.Proofs.Execution.Steps
import Stencil.Proofs.Library.Bodies

/-! # Chains in a run

When a run comes to a further branch of a chain, or to its last member, the frame of the block knows
how the chain stands: the member before it has left the flag there, in this frame, when it was run
(`Machine.LeftBy`).  So the flag is never missing, if all blocks are tidy, as they are after
compiling (`Program.chains_of_compile`).

Every frame of a run has a block of the fragment in it, and a block frame what is left of one.  The
invariant (`Machine.Traced`) says of such a frame that the instruction before what is left, if it
continues a chain, has left the flag of the frame.  A move keeps it (`Machine.traced_of_move`):
below a frame that is put on top nothing changes, and a frame that comes to the top again is as it
was left.  A further branch that is passed over leaves the flag that it found, and there it is the
invariant itself that says that there was one.
-/

namespace Stencil
namespace Machine
open Fragment

variable [Host]

/-- In the run from `first` to `machine`, an instruction that was run in a frame has left the flag
of that frame: `rest` is what follows the instruction, and `below` what is under the frame. -/
def LeftBy (first machine : Machine) (i : Instruction) (rest : Fragment) (scope : Scope)
    (flag : Option Bool) (below : List Frame) : Prop :=
  ∃ before after chain, Reaches first before ∧ before.step = .running after ∧
    Reaches after machine ∧ before.stack = .block (i :: rest) scope chain :: below ∧
      (after.stack = .block rest scope flag :: below ∨
        after.stack = .block (body? i) scope none :: .block rest scope flag :: below)

/-- **The invariant of the frames of a run**: each runs a block of the fragment, and where it stands
behind an instruction that continues a chain, this one has left the flag. -/
def Traced (fragment : Fragment) (first machine : Machine) : List Frame → Prop
  | [] => True
  | .block rest scope chain :: below =>
    (∃ done, Block fragment (done ++ rest) ∧
      ∀ before i, done = before ++ [i] → continues (some i) = true →
        chain.isSome = true ∧ LeftBy first machine i rest scope chain below) ∧
    Traced fragment first machine below
  | .loop _ body _ _ :: below => Block fragment body ∧ Traced fragment first machine below
  | .call _ body _ _ _ :: below => Block fragment body ∧ Traced fragment first machine below

variable {fragment : Fragment} {first machine next : Machine}

theorem LeftBy.step {i : Instruction} {rest : Fragment} {scope : Scope} {flag : Option Bool}
    {below : List Frame} (h : LeftBy first machine i rest scope flag below)
    (hstep : machine.step = .running next) : LeftBy first next i rest scope flag below := by
  obtain ⟨before, after, chain, hbefore, hrun, hafter, hstacks⟩ := h
  exact ⟨before, after, chain, hbefore, hrun, hafter.tail hstep, hstacks⟩

/-- What is known of frames stays known in the run. -/
theorem Traced.step {stack : List Frame} (h : Traced fragment first machine stack)
    (hstep : machine.step = .running next) : Traced fragment first next stack := by
  induction stack with
  | nil => trivial
  | cons frame below ih =>
    cases frame with
    | block rest scope chain =>
      obtain ⟨⟨done, hblock, hflag⟩, hbelow⟩ := h
      refine ⟨⟨done, hblock, fun before i hdone hi => ?_⟩, ih hbelow⟩
      obtain ⟨hsome, hleft⟩ := hflag before i hdone hi
      exact ⟨hsome, hleft.step hstep⟩
    | loop target body pairs scope => exact ⟨h.1, ih h.2⟩
    | call continuation body scope position written => exact ⟨h.1, ih h.2⟩

/-- A block that is begun. -/
theorem traced_begin {body : Fragment} (hbody : Block fragment body) {scope : Scope}
    {chain : Option Bool} {below : List Frame} (hbelow : Traced fragment first machine below) :
    Traced fragment first machine (.block body scope chain :: below) :=
  ⟨⟨[], hbody, fun before i h => by simp at h⟩, hbelow⟩

/-- A block that goes on behind an instruction, if that one has left the flag. -/
theorem traced_behind {done rest : Fragment} {i : Instruction}
    (hblock : Block fragment (done ++ i :: rest)) {scope : Scope} {chain : Option Bool}
    {below : List Frame} (hbelow : Traced fragment first machine below)
    (hflag : continues (some i) = true →
      chain.isSome = true ∧ LeftBy first machine i rest scope chain below) :
    Traced fragment first machine (.block rest scope chain :: below) := by
  refine ⟨⟨done ++ [i], by simpa using hblock, fun before j hdone hj => ?_⟩, hbelow⟩
  obtain ⟨-, hij⟩ := List.append_inj' hdone rfl
  obtain rfl := List.singleton_inj.mp hij
  exact hflag hj

omit [Host] in
theorem isSome_entered {i : Instruction} (hi : continues (some i) = true) :
    (entered i).isSome = true := by
  cases i with
  | branch | elseBranch => rfl
  | _ => cases hi

/-- **A move keeps the invariant**, if all blocks of the fragment are tidy. -/
theorem traced_of_move (htidy : ∀ block, Block fragment block → Tidy block)
    {stack stack' : List Frame} (hmove : Move stack stack') (hreach : Reaches first machine)
    (hstep : machine.step = .running next) (hstack : machine.stack = stack)
    (hstack' : next.stack = stack') (h : Traced fragment first machine stack) :
    Traced fragment first next stack' := by
  have hnext := h.step hstep
  cases hmove with
  | finish => exact hnext.2
  | @pass i rest scope chain below =>
    obtain ⟨⟨done, hblock, hflag⟩, hbelow⟩ := hnext
    refine traced_behind hblock hbelow fun hi => ⟨?_, ?_⟩
    · cases i with
      | branch => rfl
      | elseBranch condition body source position =>
        -- the flag is the one that was found, which the member before has left
        obtain ⟨before, j, hdone, hj⟩ := (htidy _ hblock).follows _ _ _ rfl rfl
        exact (hflag before j hdone hj).1
      | _ => cases hi
    · exact ⟨machine, next, chain, hreach, hstep, .refl, hstack, Or.inl hstack'⟩
  | @enter i rest scope chain below hmember =>
    obtain ⟨⟨done, hblock, hflag⟩, hbelow⟩ := hnext
    have hbody := hblock.body (List.mem_append_right done List.mem_cons_self)
    refine traced_begin hbody (traced_behind hblock hbelow fun hi => ⟨isSome_entered hi, ?_⟩)
    exact ⟨machine, next, chain, hreach, hstep, .refl, hstack, Or.inr hstack'⟩
  | loop pairs =>
    obtain ⟨⟨done, hblock, hflag⟩, hbelow⟩ := hnext
    have hbody := hblock.body (List.mem_append_right done List.mem_cons_self)
    exact ⟨hbody, traced_behind hblock hbelow nofun⟩
  | round pair more => exact traced_begin hnext.1 hnext
  | exhaust => exact hnext.2
  | call bindings continuation written =>
    obtain ⟨⟨done, hblock, hflag⟩, hbelow⟩ := hnext
    have hbody := hblock.body (List.mem_append_right done List.mem_cons_self)
    exact traced_begin hbody ⟨hbody, traced_behind hblock hbelow nofun⟩
  | again bindings continuation => exact traced_begin hnext.1 hnext
  | answer => exact hnext.2

/-- **Every machine of a run** of a fragment whose blocks are tidy has the invariant. -/
theorem traced_of_reaches (htidy : ∀ block, Block fragment block → Tidy block) {scope : Scope}
    (hreach : Reaches (start fragment scope) machine) :
    Traced fragment (start fragment scope) machine machine.stack := by
  induction hreach with
  | refl => exact traced_begin .whole trivial
  | tail hbefore hstep ih =>
    exact traced_of_move htidy (move_of_step hstep) hbefore hstep rfl rfl ih

end Machine

/-- **Chains of compiled templates.** All handlers of the two libraries take the bodies of their
instructions from the fragment that they are given.  Over any registry with such handlers, every
block of what a source compiles to is tidy; and whenever a run of it, in any scope, comes to a
member of a chain that needs a predecessor, this one stands directly before it in the block, and has
left the flag of the frame, which is not missing. -/
theorem Program.chains_of_compile [Host] :
    (∀ entry ∈ Extension.catalogue, entry.2.BuildsFromInner) ∧
    ∀ (registry : Registry), (∀ entry ∈ registry.handlers, entry.2.BuildsFromInner) →
      ∀ (source : Text) (fragment : Fragment), Program.compile registry source = .ok fragment →
        (∀ block, Fragment.Block fragment block → block.Tidy) ∧
        ∀ (scope : Scope) (machine : Machine),
          Machine.Reaches (Machine.start fragment scope) machine →
          ∀ i rest inside chain below, machine.stack = .block (i :: rest) inside chain :: below →
            Fragment.isSuccessor i = true →
            ∃ done j taken, Fragment.Block fragment (done ++ j :: i :: rest) ∧
              Fragment.continues (some j) = true ∧ chain = some taken ∧
              Machine.LeftBy (Machine.start fragment scope) machine j (i :: rest) inside chain
                below := by
  refine ⟨fun entry hentry => buildsFromInner_of_mem hentry,
    fun registry hhandlers source fragment hcompile => ?_⟩
  have htidy := Program.tidy_of_compile hhandlers hcompile
  refine ⟨htidy, fun scope machine hreach i rest inside chain below hstack hi => ?_⟩
  have htraced := Machine.traced_of_reaches htidy hreach
  rw [hstack] at htraced
  obtain ⟨⟨done, hblock, hflag⟩, -⟩ := htraced
  obtain ⟨before, j, rfl, hj⟩ := (htidy _ hblock).follows _ _ _ rfl hi
  obtain ⟨hsome, hleft⟩ := hflag before j rfl hj
  obtain ⟨taken, htaken⟩ := Option.isSome_iff_exists.mp hsome
  exact ⟨before, j, taken, by simpa using hblock, hj, htaken, hleft⟩

/-! ## A chain whose condition does not hold -/

namespace Standard

/-- The handlers of the standard grammar are those of the standard library. -/
theorem buildsFromInner_registry [Host] : ∀ entry ∈ registry.handlers, entry.2.BuildsFromInner := by
  intro entry hentry
  refine buildsFromInner_of_mem_handlers ?_
  rw [registry_handlers] at hentry
  simp only [List.mem_cons, List.not_mem_nil, or_false] at hentry
  rcases hentry with rfl | rfl | rfl | rfl | rfl | rfl | rfl | rfl | rfl <;> simp [handlers]

attribute [local instance] Host.usual

/-- A plus if something holds, and else a minus. -/
def chained : Text := Text.ofString "\x7bif $a\x7d+\x7b/if\x7d\x7belse\x7d-\x7b/else\x7d"

/-- The last member of the chain. -/
def lastMember : Instruction := .otherwise [.literal ['-']] (some ⟨13, 1, 14⟩)

/-- What the chain compiles to. -/
def chainedFragment : Fragment :=
  [.branch (.path ['a'] []) [.literal ['+']] ['$', 'a'] (some ⟨0, 1, 1⟩), lastMember]

/-- A scope in which the condition does not hold. -/
def unset : Scope := Scope.ofData (.map [(.text ['a'], .bool false)])

/-- A run that has passed over the branch comes to the last member with the flag that the branch has
left. -/
theorem chains_of_compile_chained :
    Program.compile registry chained = .ok chainedFragment ∧
      (∀ block, Fragment.Block chainedFragment block → block.Tidy) ∧
      Machine.Reaches (Machine.start chainedFragment unset)
        ⟨[.block [lastMember] unset (some false)], [], []⟩ ∧
      ∃ j, Fragment.continues (some j) = true ∧
        Machine.LeftBy (Machine.start chainedFragment unset)
          ⟨[.block [lastMember] unset (some false)], [], []⟩ j [lastMember] unset (some false) [] := by
  have hcompile : Program.compile registry chained = .ok chainedFragment := by cbv
  have hstep : (Machine.start chainedFragment unset).step =
      .running ⟨[.block [lastMember] unset (some false)], [], []⟩ := by cbv
  have hreach : Machine.Reaches (Machine.start chainedFragment unset)
      ⟨[.block [lastMember] unset (some false)], [], []⟩ := .single hstep
  obtain ⟨htidy, hchains⟩ := Program.chains_of_compile.2 registry buildsFromInner_registry chained
    chainedFragment hcompile
  obtain ⟨done, j, taken, hblock, hj, -, hleft⟩ :=
    hchains unset _ hreach lastMember [] unset (some false) [] rfl rfl
  exact ⟨hcompile, htidy, hreach, j, hj, hleft⟩

end Standard
end Stencil
