import PromptTemplate.Proofs.Template.Descent

/-!
# Beginnings of templates

Tokens are refused either for good or for want of more. A token that continues
or closes no open block, a condition or a slice that cannot be read: such a
refusal stays whatever tokens follow. Tokens that leave a block open are the
beginning of a template, since the end tags of the open blocks complete it, and
they are refused for the innermost of these blocks. No other tokens are.
-/

namespace PromptTemplate

/-!
### Which token is refused
-/

namespace Assembly

/-- A token is refused for its condition or its slice, or it is a terminator that stands in
the wrong place. -/
theorem State.step_eq_error {s : State} {t : Token} {e : SyntaxError} (h : s.step t = .error e) :
    (∃ text, e = .invalidCondition text) ∨ (∃ text, e = .invalidSlice text) ∨
      ∃ terminator, t = .terminator terminator ∧ e = .unexpected terminator := by
  cases t with
  | text value trim => cases h
  | interpolation expression trim => cases h
  | assign name expression => cases h
  | raise message => cases h
  | ifStart c =>
    rcases eq_error_of_bind h with h | ⟨condition, -, h⟩
    · exact .inl (Condition.exists_of_read_eq_error h)
    · cases h
  | forStart item list =>
    rcases eq_error_of_bind h with h | ⟨source, -, h⟩
    · exact .inr (.inl (LoopSource.exists_of_read_eq_error h))
    · cases h
  | terminator t =>
    change s.terminate t = .error e at h
    unfold State.terminate at h
    split at h
    · rcases eq_error_of_bind h with h | ⟨condition, -, h⟩
      · exact .inl (Condition.exists_of_read_eq_error h)
      · cases h
    · cases h
    · cases h
    · cases h
    · cases h
    · cases h
      exact .inr (.inr ⟨_, rfl, rfl⟩)

/-- A run is refused for one of its tokens. -/
theorem State.run_eq_error {s : State} {ts : List Token} {e : SyntaxError}
    (h : s.run ts = .error e) : ∃ s' : State, ∃ t ∈ ts, s'.step t = .error e := by
  induction ts generalizing s with
  | nil => cases h
  | cons t ts ih =>
    rw [State.run_cons] at h
    rcases eq_error_of_bind h with h | ⟨next, -, h⟩
    · exact ⟨s, t, List.mem_cons_self, h⟩
    · obtain ⟨s', u, hu, he⟩ := ih h
      exact ⟨s', u, List.mem_cons_of_mem t hu, he⟩

/-- What is refused stays refused, whatever follows. -/
theorem State.run_append_of_error {s : State} {ts : List Token} {e : SyntaxError}
    (h : s.run ts = .error e) (us : List Token) : s.run (ts ++ us) = .error e := by
  rw [State.run_append, h]
  rfl

/-!
### Blocks that are open
-/

end Assembly

/-- The blocks that are open behind one more token, innermost first: an opening tag adds one,
an end tag removes one. -/
def Token.track (blocks : List BlockKind) : Token → List BlockKind
  | .ifStart _ => .conditional :: blocks
  | .forStart _ _ => .loop :: blocks
  | .terminator .endIf => blocks.tail
  | .terminator .endFor => blocks.tail
  | _ => blocks

/-- The blocks that tokens open and do not close, innermost first. -/
def Token.openBlocks (ts : List Token) : List BlockKind := ts.foldl Token.track []

namespace Assembly

/-- The kinds of the open blocks, innermost first. -/
def State.kinds (s : State) : List BlockKind := s.frames.map Frame.kind

/-- A token that is read opens and closes the blocks that its tag says. -/
theorem State.kinds_step {s s' : State} {t : Token} (h : s.step t = .ok s') :
    s'.kinds = Token.track s.kinds t := by
  cases t with
  | text value trim => cases h; rfl
  | interpolation expression trim => cases h; rfl
  | assign name expression => cases h; rfl
  | raise message => cases h; rfl
  | ifStart c =>
    obtain ⟨condition, -, hs⟩ := bind_eq_ok h
    cases hs
    rfl
  | forStart item list =>
    obtain ⟨source, -, hs⟩ := bind_eq_ok h
    cases hs
    rfl
  | terminator t =>
    change s.terminate t = .ok s' at h
    obtain ⟨nodes, frames⟩ := s
    unfold State.terminate at h
    split at h
    · next hframes =>
      obtain ⟨condition, -, hs⟩ := bind_eq_ok h
      cases hs
      cases hframes
      rfl
    · next hframes => cases h; cases hframes; rfl
    · next hframes => cases h; cases hframes; rfl
    · next hframes => cases h; cases hframes; rfl
    · next hframes => cases h; cases hframes; rfl
    · cases h

/-- So does a run of tokens. -/
theorem State.kinds_run {s s' : State} {ts : List Token} (h : s.run ts = .ok s') :
    s'.kinds = ts.foldl Token.track s.kinds := by
  induction ts generalizing s with
  | nil =>
    cases h
    rfl
  | cons t ts ih =>
    rw [State.run_cons] at h
    obtain ⟨next, hstep, hrest⟩ := bind_eq_ok h
    rw [List.foldl_cons, ← State.kinds_step hstep]
    exact ih hrest

/-- The tag that ends an open block. -/
def Frame.closer : Frame → Token
  | .arm .. => .terminator .endIf
  | .otherwise .. => .terminator .endIf
  | .loop .. => .terminator .endFor

/-- The end tag of the innermost block is read, and leaves the blocks around it. -/
theorem Frame.step_closer (nodes : List Node) (frame : Frame) (frames : List Frame) :
    ∃ outer, State.step ⟨nodes, frame :: frames⟩ frame.closer = .ok ⟨outer, frames⟩ := by
  cases frame with
  | arm before earlier condition => exact ⟨_, rfl⟩
  | otherwise before arms => exact ⟨_, rfl⟩
  | loop before item source => exact ⟨_, rfl⟩

/-- The end tags of all open blocks complete a template. -/
theorem State.run_closers (nodes : List Node) (frames : List Frame) :
    ∃ ns, State.run ⟨nodes, frames⟩ (frames.map Frame.closer) = .ok ⟨ns, []⟩ := by
  induction frames generalizing nodes with
  | nil => exact ⟨nodes, rfl⟩
  | cons frame frames ih =>
    obtain ⟨outer, hstep⟩ := frame.step_closer nodes frames
    obtain ⟨ns, hrest⟩ := ih outer
    exact ⟨ns, (State.run_cons_of_step hstep _).trans hrest⟩

/-!
### The two kinds of refusals
-/

/-- Tokens are refused while they are read, or for a block that stays open. -/
theorem ofTokens_eq_error {ts : List Token} {e : SyntaxError}
    (h : Template.ofTokens ts = .error e) :
    State.start.run ts = .error e ∨
      ∃ nodes frame frames, State.start.run ts = .ok ⟨nodes, frame :: frames⟩ ∧
        e = .unclosedBlock frame.kind := by
  rw [ofTokens_eq] at h
  rcases eq_error_of_bind h with h | ⟨⟨nodes, frames⟩, hrun, hfinish⟩
  · exact .inl h
  · cases frames with
    | nil => cases hfinish
    | cons frame frames =>
      cases hfinish
      exact .inr ⟨nodes, frame, frames, hrun, rfl⟩

/-- While tokens are read nothing is said about blocks that stay open. -/
theorem State.run_ne_unclosedBlock {s : State} {ts : List Token} {kind : BlockKind} :
    s.run ts ≠ .error (.unclosedBlock kind) := by
  intro h
  obtain ⟨s', t, -, hstep⟩ := State.run_eq_error h
  rcases State.step_eq_error hstep with ⟨text, he⟩ | ⟨text, he⟩ | ⟨terminator, -, he⟩
  · cases he
  · cases he
  · cases he

/-- Tokens that leave a block open are completed by end tags. -/
theorem exists_completion {ts : List Token} {kind : BlockKind}
    (h : Template.ofTokens ts = .error (.unclosedBlock kind)) :
    (∃ us ns, Template.ofTokens (ts ++ us) = .ok ns) ∧
      (Token.openBlocks ts).head? = some kind := by
  rcases ofTokens_eq_error h with hrun | ⟨nodes, frame, frames, hrun, he⟩
  · exact absurd hrun State.run_ne_unclosedBlock
  · constructor
    · obtain ⟨ns, hclosers⟩ := State.run_closers nodes (frame :: frames)
      refine ⟨(frame :: frames).map Frame.closer, ns.reverse, ?_⟩
      rw [ofTokens_eq, State.run_append_of_run hrun, hclosers]
      rfl
    · cases he
      have hkinds : (frame :: frames).map Frame.kind = Token.openBlocks ts := State.kinds_run hrun
      rw [← hkinds]
      rfl

/-- A tag that is refused as unexpected is one of the tokens. -/
theorem mem_of_unexpected {ts : List Token} {t : Terminator}
    (h : Template.ofTokens ts = .error (.unexpected t)) : .terminator t ∈ ts := by
  rcases ofTokens_eq_error h with hrun | ⟨nodes, frame, frames, -, he⟩
  · obtain ⟨s, u, hu, hstep⟩ := State.run_eq_error hrun
    rcases State.step_eq_error hstep with ⟨text, he⟩ | ⟨text, he⟩ | ⟨t', rfl, he⟩
    · cases he
    · cases he
    · cases he
      exact hu
  · cases he

/-- Any other refusal stays, whatever follows. -/
theorem ofTokens_append_of_error {ts : List Token} {e : SyntaxError}
    (h : Template.ofTokens ts = .error e) (he : ∀ kind, e ≠ .unclosedBlock kind)
    (us : List Token) : Template.ofTokens (ts ++ us) = .error e := by
  rcases ofTokens_eq_error h with hrun | ⟨nodes, frame, frames, -, hunclosed⟩
  · rw [ofTokens_eq, State.run_append_of_error hrun]
    rfl
  · exact absurd hunclosed (he frame.kind)

end Assembly

/-- A descent that is refused by a token is refused by a terminator, as the assembly is. -/
theorem Descent.eq_terminator_of_unexpected {ts : List Token} {t : Token}
    (h : Descent.template ts = .error (.unexpected t)) :
    ∃ terminator, t = .terminator terminator ∧
      Template.ofTokens ts = .error (.unexpected terminator) := by
  rw [Descent.template_eq] at h
  cases hts : Template.ofTokens ts with
  | ok nodes =>
    rw [hts] at h
    cases h
  | error e =>
    rw [hts] at h
    cases e with
    | unexpected terminator =>
      cases h
      exact ⟨terminator, rfl, rfl⟩
    | _ => cases h

/-- Tokens that are no template are refused for good or for want of more. A refusal for any
cause but an unclosed block stays under every continuation. An unclosed block is the cause
exactly if some continuation completes a template, and then it is the innermost block that is
open at the end. A tag is refused as unexpected only if it is one of the tokens, and a descent,
which has room for tokens of all kinds in a refusal, refuses by no others. -/
theorem refused_for_good_or_completed (ts : List Token) :
    (∀ e, Template.ofTokens ts = .error e → (∀ kind, e ≠ .unclosedBlock kind) →
      ∀ us, Template.ofTokens (ts ++ us) = .error e) ∧
    ((∃ kind, Template.ofTokens ts = .error (.unclosedBlock kind)) ↔
      (∀ ns, Template.ofTokens ts ≠ .ok ns) ∧
        ∃ us ns, Template.ofTokens (ts ++ us) = .ok ns) ∧
    (∀ kind, Template.ofTokens ts = .error (.unclosedBlock kind) →
      (Token.openBlocks ts).head? = some kind) ∧
    (∀ t, Template.ofTokens ts = .error (.unexpected t) → .terminator t ∈ ts) ∧
    ∀ t, Descent.template ts = .error (.unexpected t) →
      t ∈ ts ∧ ∃ terminator, t = .terminator terminator ∧
        Template.ofTokens ts = .error (.unexpected terminator) := by
  refine ⟨fun e h he us => Assembly.ofTokens_append_of_error h he us, ⟨?_, ?_⟩,
    fun kind h => (Assembly.exists_completion h).2, fun t h => Assembly.mem_of_unexpected h,
    fun t h => ?_⟩
  · rintro ⟨kind, h⟩
    refine ⟨fun ns hok => ?_, (Assembly.exists_completion h).1⟩
    rw [h] at hok
    cases hok
  · rintro ⟨hrefused, us, ns, hcompleted⟩
    cases h : Template.ofTokens ts with
    | ok nodes => exact absurd h (hrefused nodes)
    | error e =>
      by_cases he : ∀ kind, e ≠ .unclosedBlock kind
      · rw [Assembly.ofTokens_append_of_error h he us] at hcompleted
        cases hcompleted
      · obtain ⟨kind, hkind⟩ := Classical.not_forall.1 he
        exact ⟨kind, congrArg Except.error (Decidable.not_not.1 hkind)⟩
  · obtain ⟨terminator, rfl, hts⟩ := Descent.eq_terminator_of_unexpected h
    exact ⟨Assembly.mem_of_unexpected hts, terminator, rfl, hts⟩

/-- A conditional with a second arm, cut short inside a loop: an end tag of the conditional and
one of the loop complete it, and an end tag of the loop alone is refused for good, by assembly
and by descent. -/
theorem refused_for_good_or_completed_of_second_arm :
    let cut : List Token := [.forStart "x".toList "xs".toList, .ifStart "a".toList,
      .terminator (.elseIf "b".toList), .text "t".toList ⟨false, false⟩]
    (∃ us ns, Template.ofTokens (cut ++ us) = .ok ns) ∧
      (Token.openBlocks cut).head? = some .conditional ∧
      (∀ us, Template.ofTokens (cut ++ [.terminator .endFor] ++ us) =
        .error (.unexpected .endFor)) ∧
      Descent.template (cut ++ [.terminator .endFor]) =
        .error (.unexpected (.terminator .endFor)) ∧
      .terminator .endFor ∈ cut ++ [.terminator .endFor] := by
  intro cut
  have hcut : Template.ofTokens cut = .error (.unclosedBlock .conditional) := by
    with_unfolding_all rfl
  have hend : Template.ofTokens (cut ++ [.terminator .endFor]) = .error (.unexpected .endFor) := by
    with_unfolding_all rfl
  have hdescent : Descent.template (cut ++ [.terminator .endFor]) =
      .error (.unexpected (.terminator .endFor)) := by
    rw [Descent.template_eq, hend]
    rfl
  obtain ⟨-, hcompleted, hinnermost, -⟩ := refused_for_good_or_completed cut
  obtain ⟨hstays, -, -, -, hmember⟩ :=
    refused_for_good_or_completed (cut ++ [.terminator .endFor])
  exact ⟨(hcompleted.1 ⟨_, hcut⟩).2, hinnermost _ hcut, hstays _ hend nofun, hdescent,
    (hmember _ hdescent).1⟩

end PromptTemplate
