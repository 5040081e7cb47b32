import PromptTemplate.Proofs.Expression.Parts
import PromptTemplate.Proofs.Expression.PathText
import PromptTemplate.Proofs.Template.Refusal

/-!
# Loops over paths

A path in a loop is read twice: the slices at its end are taken off by the loop
source, and only what stands before them is evaluated as an expression. For most
paths this gives the items of the list that the whole path is. Two kinds of
paths differ. A quoted key with a colon is a key of a path, but at the end of a
loop source, or before the slices there, it is taken for a slice and refused. And
before slices a word such as `none` is a variable in a path, but a constant in a
loop source.
-/

namespace PromptTemplate

/-!
### The last group of a text
-/

namespace Nesting

/-- Without a square bracket at the top level there is no index group. -/
theorem State.lastIndex_eq_none {s : State} {t : Text} (h : '[' ∉ s.visible t) :
    s.lastIndex t = none := by
  induction t generalizing s with
  | nil => rfl
  | cons c t ih =>
    cases htop : s.isTop c with
    | false =>
      rw [visible_cons_of_not_top htop] at h
      rw [lastIndex, ih h, htop]
      rfl
    | true =>
      rw [visible_cons_of_top htop, List.mem_cons, not_or] at h
      rw [lastIndex, ih h.2]
      exact if_neg fun hc => h.1 hc.2.symm

/-- The last index group of a text is the last behind any beginning of it. -/
theorem State.lastIndex_append {s : State} {t u : Text} {found : Text × Text}
    (h : (s.run t).lastIndex u = some found) :
    s.lastIndex (t ++ u) = some (t ++ found.1, found.2) := by
  induction t generalizing s with
  | nil => exact h
  | cons c t ih =>
    rw [List.cons_append, lastIndex, ih h]
    rfl

/-- A group at the end of a text is found, whatever stands inside it and before it. -/
theorem trailingIndex?_group {t inside : Text} (ht : isBalanced t = true)
    (hinside : isBalanced inside = true) :
    trailingIndex? (t ++ '[' :: (inside ++ [']'])) = some (t, inside) := by
  have hvisible : State.start.deeper.visible (inside ++ [']']) = [']'] := by
    rw [State.visible_append, State.visible_deeper hinside, State.run_deeper hinside]
    rfl
  have hgroup : State.start.lastIndex ('[' :: (inside ++ [']'])) = some ([], inside ++ [']']) := by
    have hlater : State.start.deeper.lastIndex (inside ++ [']']) = none :=
      State.lastIndex_eq_none (by rw [hvisible]; decide)
    have hstep : State.start.step '[' = State.start.deeper := rfl
    rw [State.lastIndex, hstep, hlater]
    rfl
  have hall := State.lastIndex_append (s := State.start) (t := t)
    ((congrArg (State.lastIndex · _) (State.run_of_closes ht)).trans hgroup)
  have hlast : (t ++ '[' :: (inside ++ [']'])).getLast? = some ']' := by
    rw [← List.cons_append, ← List.append_assoc, List.getLast?_concat]
  rw [trailingIndex?, if_pos hlast, hall, Option.map_some, List.append_nil, List.dropLast_concat]

/-- A text that does not end with a bracket has no group at its end. -/
theorem trailingIndex?_eq_none {t : Text} (h : t.getLast? ≠ some ']') :
    trailingIndex? t = none := if_neg h

end Nesting

/-!
### Groups with a colon
-/

/-- The meaning of a literal holds a colon exactly if its body does. -/
theorem Literal.colon_mem_unescape {body : Text} : ':' ∈ unescape body ↔ ':' ∈ body := by
  fun_induction unescape body with
  | case8 => rfl
  | _ => simp_all

/-- A literal holds a colon exactly if its meaning does. -/
theorem Literal.colon_mem_of_read? {t key : Text} {q : Char} (h : read? t = some (q, key)) :
    ':' ∈ key ↔ ':' ∈ t := by
  cases t with
  | nil => cases h
  | cons c t =>
    rw [read?] at h
    split at h
    · next hq =>
      have hcolon : ':' ≠ c := by
        rintro rfl
        exact absurd hq (by decide)
      split at h
      · next body hclose =>
        cases h
        rw [eq_of_close hclose, colon_mem_unescape]
        simp [hcolon]
      · cases h
    · cases h

/-- Blanks before a bound do not matter. -/
theorem Step.readBound?_trimStart (t : Text) : readBound? (Text.trimStart t) = readBound? t := by
  rw [readBound?, Text.trim_trimStart, readBound?]

/-- Blanks behind a bound do not matter. -/
theorem Step.readBound?_trimEnd (t : Text) : readBound? (Text.trimEnd t) = readBound? t := by
  rw [readBound?, Text.trim_trimEnd, readBound?]

/-- A quote does not begin a bound. -/
theorem Step.readBound?_of_quote {t : Text} {q : Char} (hq : Nesting.isQuote q = true)
    (h : (Text.trimStart t).head? = some q) : readBound? t = none := by
  rcases Nesting.eq_of_isQuote hq with rfl | rfl
  · exact readBound?_eq_none h (by decide) (by decide) (by decide) (by decide)
  · exact readBound?_eq_none h (by decide) (by decide) (by decide) (by decide)

/-- A step that keeps a range. -/
def Step.isSlice {ε : Type} : Step ε → Bool
  | .slice _ _ => true
  | _ => false

/-- The step of an attribute is no slice, and its key has no colon. -/
theorem Step.ofAttribute_plain {name : Text} (h : ∀ c ∈ name, Text.isNameChar c = true) :
    (ofAttribute name).isSlice = false ∧ ∀ key, ofAttribute name = .key key → ':' ∉ key := by
  unfold ofAttribute
  split
  · exact ⟨rfl, nofun⟩
  · refine ⟨rfl, ?_⟩
    rintro _ ⟨⟩ hcolon
    exact absurd (h _ hcolon) (by decide)

/-- The inside of a group as a loop source sees it. Without a colon it is no slice. Of the
others, those with two bounds are slices, and the rest are quoted keys. -/
inductive GroupKind (inside : Text) : Step Text → Prop
  | plain {step : Step Text} : Text.breakOn [':'] inside = none → step.isSlice = false →
      (∀ key, step = .key key → ':' ∉ key) → GroupKind inside step
  | slice {start stop : Text} {start? stop? : Option Int} :
      Text.breakOn [':'] inside = some (start, stop) → Step.readBound? start = some start? →
      Step.readBound? stop = some stop? → GroupKind inside (.slice start? stop?)
  | key {start stop key : Text} : Text.breakOn [':'] inside = some (start, stop) →
      Step.readBound? start = none → ':' ∈ key → GroupKind inside (.key key)

/-- Every group is of one of the kinds. -/
theorem GroupKind.of_ofGroup? {inside : Text} {step : Step Text}
    (h : Step.ofGroup? (Text.trim inside) = some step) : GroupKind inside step := by
  unfold Step.ofGroup? at h
  split at h
  · cases h
  next hne =>
  by_cases hcolon : ':' ∈ inside
  · obtain ⟨start, stop, rfl, hstart⟩ := List.eq_append_cons_of_mem hcolon
    have hbreak := Text.breakOn_singleton hstart stop
    have htrim := Text.trim_append_cons (by decide : Text.isBlank ':' = false) start stop
    have hstart' : ':' ∉ Text.trimStart start :=
      fun hmem => hstart ((List.dropWhile_sublist _).subset hmem)
    rw [htrim] at h
    split at h
    · next q key hread =>
      cases h
      obtain ⟨hq, body, -, htext⟩ := Literal.eq_of_read? hread
      have hhead : (Text.trimStart start).head? = some q := by
        cases hfirst : Text.trimStart start with
        | nil =>
          rw [hfirst] at htext
          obtain ⟨rfl, -⟩ := List.cons.inj htext
          exact absurd hq (by decide)
        | cons c rest =>
          rw [hfirst] at htext
          exact congrArg some (List.cons.inj htext).1
      refine .key hbreak (Step.readBound?_of_quote hq hhead) ?_
      exact (Literal.colon_mem_of_read? hread).2 (List.mem_append_right _ List.mem_cons_self)
    · next i _ hread =>
      rw [Text.readInt?_eq_none (List.mem_append_right _ List.mem_cons_self)
        (by decide) (by decide) (by decide)] at hread
      cases hread
    · next first second _ _ hread =>
      rw [Text.breakOn_singleton hstart'] at hread
      cases hread
      obtain ⟨start?, hfirst, h⟩ := Option.bind_eq_some_iff.1 h
      obtain ⟨stop?, hsecond, h⟩ := Option.bind_eq_some_iff.1 h
      cases h
      rw [Step.readBound?_trimStart] at hfirst
      rw [Step.readBound?_trimEnd] at hsecond
      exact .slice hbreak hfirst hsecond
    · next _ _ hread =>
      rw [Text.breakOn_singleton hstart'] at hread
      cases hread
  · have htrim : ':' ∉ Text.trim inside := fun hmem => hcolon ((Text.trim_isInfix _).subset hmem)
    have hbreak := Text.breakOn_eq_none hcolon
    rw [Text.breakOn_eq_none htrim] at h
    split at h
    · next q key hread =>
      cases h
      refine .plain hbreak rfl ?_
      rintro _ ⟨⟩ hmem
      exact htrim ((Literal.colon_mem_of_read? hread).1 hmem)
    · cases h
      exact .plain hbreak rfl nofun
    · next hread => cases hread
    · cases h
      exact .plain hbreak rfl nofun

/-!
### Loop sources at the end of a path
-/

namespace LoopSource

variable {t before inside : Text}

/-- A trimmed text without a group at its end is an expression. -/
theorem read_of_no_group (ht : Text.trim t = t) (h : Nesting.trailingIndex? t = none) :
    read t = .ok (.expression t) := by
  rw [read, ht]
  split
  · rfl
  · next hgroup => rw [h] at hgroup; cases hgroup

/-- A name is an expression. -/
theorem read_of_isIdentifier {name : Text} (h : Text.isIdentifier name = true) :
    read name = .ok (.expression name) := by
  refine read_of_no_group (PathText.root h).trim_eq (Nesting.trailingIndex?_eq_none fun hlast => ?_)
  have hchar := Text.isNameChar_of_isIdentifier h _ (List.mem_of_getLast? hlast)
  exact absurd hchar (by decide)

/-- A group without a colon belongs to an expression. -/
theorem read_of_plain (ht : Text.trim t = t)
    (h : Nesting.trailingIndex? t = some (before, inside))
    (hcolon : Text.breakOn [':'] inside = none) : read t = .ok (.expression t) := by
  rw [read, ht]
  split
  · rfl
  · next hgroup =>
    rw [h] at hgroup
    cases hgroup
    rw [hcolon]

/-- A group with two bounds is a slice of what stands before it. -/
theorem read_of_slice (ht : Text.trim t = t)
    (h : Nesting.trailingIndex? t = some (before, inside)) {start stop : Text}
    (hcolon : Text.breakOn [':'] inside = some (start, stop)) {start? stop? : Option Int}
    (hstart : Step.readBound? start = some start?) (hstop : Step.readBound? stop = some stop?) :
    read t = (read before).map (.slice · start? stop?) := by
  rw [read, ht]
  split
  · next hgroup => rw [h] at hgroup; cases hgroup
  · next hgroup =>
    rw [h] at hgroup
    cases hgroup
    simp only [hcolon, readBound, hstart, hstop]
    cases read before <;> rfl

/-- Blanks around a loop source do not matter. -/
theorem read_trim (t : Text) : read (Text.trim t) = read t := by
  rw [read, read, Text.trim_trim]

/-- A slice behind a balanced text is a slice of the loop source that the text is. -/
theorem read_append_slice {u : Text} {start? stop? : Option Int}
    (ht : Nesting.isBalanced t = true) (hu : StepText u (.slice start? stop?)) :
    read (t ++ u) = (read t).map (.slice · start? stop?) := by
  generalize hslice : Step.slice start? stop? = step at hu
  cases hu with
  | dotted hne hname =>
    have hplain := (Step.ofAttribute_plain hname).1
    rw [← hslice] at hplain
    cases hplain
  | @group inside _ hbalanced hgroup =>
    subst hslice
    have htrim : Text.trim (t ++ '[' :: (inside ++ [']'])) =
        Text.trimStart t ++ '[' :: (inside ++ [']']) := by
      rw [Text.trim_append_cons (by decide), Text.trimEnd_append_of_not_blank (by decide)]
    have htrailing := Nesting.trailingIndex?_group (Nesting.isBalanced_trimStart ht) hbalanced
    have hbefore : read (Text.trimStart t) = read t := by
      rw [← read_trim, Text.trim_trimStart, read_trim]
    rw [← read_trim, htrim, ← hbefore]
    cases GroupKind.of_ofGroup? hgroup with
    | plain hbreak hplain => cases hplain
    | slice hbreak hstart hstop =>
      exact read_of_slice (htrim ▸ Text.trim_trim _) htrailing hbreak hstart hstop

/-- A group whose part before a colon is no bound is refused. -/
theorem exists_read_eq_error (ht : Text.trim t = t)
    (h : Nesting.trailingIndex? t = some (before, inside)) {start stop : Text}
    (hcolon : Text.breakOn [':'] inside = some (start, stop))
    (hstart : Step.readBound? start = none) : ∃ text, read t = .error (.invalidSlice text) := by
  have herror : ∃ e, read t = .error e := by
    rw [read, ht]
    split
    · next hgroup => rw [h] at hgroup; cases hgroup
    · next hgroup =>
      rw [h] at hgroup
      cases hgroup
      simp only [hcolon, readBound, hstart]
      cases read before with
      | error e => exact ⟨e, rfl⟩
      | ok inner => exact ⟨_, rfl⟩
  obtain ⟨e, he⟩ := herror
  obtain ⟨text, rfl⟩ := exists_of_read_eq_error he
  exact ⟨text, he⟩

end LoopSource

/-!
### Paths that are lists
-/

/-- The last step of a path that is no slice, if there is one. -/
def Path.core? {ε : Type} (p : Path ε) : Option (Step ε) :=
  p.steps.reverse.find? fun step => !step.isSlice

/-- The last step that is no slice is a key with a colon. -/
def Path.EndsWithColonKey {ε : Type} (p : Path ε) : Prop :=
  ∃ key, p.core? = some (.key key) ∧ ':' ∈ key

/-- There are only slices behind the word for a constant. -/
def Path.IsSlicedConstant {ε : Type} (p : Path ε) : Prop :=
  p.core? = none ∧ p.root ∈ constantWords

section

variable {ε : Type} (root : Text) (steps : List (Step ε))

/-- A last step that is no slice is the one that counts. -/
theorem Path.core?_snoc {step : Step ε} (h : step.isSlice = false) :
    (⟨root, steps ++ [step]⟩ : Path ε).core? = some step := by
  rw [core?, List.reverse_concat, List.find?_cons_of_pos (by rw [h]; rfl)]

/-- A last step that is a slice does not count. -/
theorem Path.core?_snoc_slice (start? stop? : Option Int) :
    (⟨root, steps ++ [.slice start? stop?]⟩ : Path ε).core? =
      (⟨root, steps⟩ : Path ε).core? := by
  rw [core?, core?, List.reverse_concat, List.find?_cons_of_neg Bool.false_ne_true]

end

/-- A slice is a list only if it is taken from one. -/
theorem Value.exists_of_atSlice_eq_list {v : Value} {start? stop? : Option Int}
    {xs : List Value} (h : v.atSlice start? stop? = .list xs) :
    ∃ ys, v = .list ys ∧ sliceOf ys start? stop? = xs := by
  cases v with
  | list ys => exact ⟨ys, rfl, Value.list.inj h⟩
  | _ => cases h

/-- A slice of nothing is nothing. -/
theorem sliceOf_nil {α : Type} (start? stop? : Option Int) :
    sliceOf ([] : List α) start? stop? = [] := by
  rw [sliceOf, List.take_nil, List.drop_nil]

/-- The words for constants are null and the truth values. -/
theorem evaluate_constantWord {t : Text} (h : t ∈ constantWords) (s : Scope) :
    evaluate s t = .null ∨ ∃ b, evaluate s t = .bool b := by
  have hform : ∀ word ∈ constantWords,
      Form.ofText word = .literal .null ∨ ∃ b, Form.ofText word = .literal (.bool b) := by
    simp only [constantWords, List.map_cons, List.map_nil, List.forall_mem_cons]
    exact ⟨.inl rfl, .inl rfl, .inr ⟨true, rfl⟩, .inr ⟨true, rfl⟩, .inr ⟨false, rfl⟩,
      .inr ⟨false, rfl⟩, fun word hword => absurd hword List.not_mem_nil⟩
  rw [evaluate_eq]
  rcases hform t h with hnull | ⟨b, hbool⟩
  · exact .inl (congrArg (Form.eval s (evaluate s)) hnull)
  · exact .inr ⟨b, congrArg (Form.eval s (evaluate s)) hbool⟩

namespace LoopSource

/-- How a path that is a list is read as a loop source: not at all if it ends with a key with a
colon, and else as a source of the items of the list, or of none behind a constant. -/
structure Agrees (s : Scope) (t : Text) (p : Path Text) (xs : List Value) : Prop where
  refused : p.EndsWithColonKey → ∃ text, read t = .error (.invalidSlice text)
  reads : ¬ p.EndsWithColonKey → ∃ source, read t = .ok source ∧
    (p.IsSlicedConstant → source.items s = []) ∧ (¬ p.IsSlicedConstant → source.items s = xs)

namespace Agrees

variable {s : Scope} {t before root : Text} {steps : List (Step Text)} {xs : List Value}

/-- A name alone is read as an expression. -/
theorem of_root (hroot : Text.isIdentifier root = true)
    (h : Path.eval s.vars (evaluate s) ⟨root, []⟩ = .list xs) : Agrees s root ⟨root, []⟩ xs := by
  refine ⟨nofun, fun _ => ⟨_, read_of_isIdentifier hroot, fun hconstant => ?_, fun hno => ?_⟩⟩
  · rcases evaluate_constantWord hconstant.2 s with hnull | ⟨b, hbool⟩
    · rw [items, hnull]
      rfl
    · rw [items, hbool]
      rfl
  · have hword : root ∉ constantWords := fun hword => hno ⟨rfl, hword⟩
    rw [items, (PathText.root hroot).evaluate_eq hword s, h]
    rfl

/-- A text that is read as one expression gives the items of its list, if its last step is
neither a slice nor a key with a colon. -/
theorem of_expression {step : Step Text} (hread : read t = .ok (.expression t))
    (h : evaluate s t = .list xs) (hslice : step.isSlice = false)
    (hkey : ∀ key, step = .key key → ':' ∉ key) : Agrees s t ⟨root, steps ++ [step]⟩ xs := by
  have hcore := Path.core?_snoc root steps hslice
  constructor
  · rintro ⟨key, hlast, hcolon⟩
    rw [hcore] at hlast
    exact absurd hcolon (hkey key (Option.some.inj hlast))
  · refine fun _ => ⟨.expression t, hread, ?_, fun _ => ?_⟩
    · rintro ⟨hnone, -⟩
      rw [hcore] at hnone
      cases hnone
    · rw [items, h]
      rfl

/-- A slice behind a path is a slice of the loop source that the path is. -/
theorem slice {start? stop? : Option Int} {ys : List Value}
    (h : Agrees s before ⟨root, steps⟩ ys)
    (hread : read t = (read before).map (.slice · start? stop?)) :
    Agrees s t ⟨root, steps ++ [.slice start? stop?]⟩ (sliceOf ys start? stop?) := by
  have hcore := Path.core?_snoc_slice root steps start? stop?
  constructor
  · rintro ⟨key, hlast, hcolon⟩
    obtain ⟨text, herror⟩ := h.refused ⟨key, hcore ▸ hlast, hcolon⟩
    rw [herror] at hread
    exact ⟨text, hread⟩
  · intro hno
    obtain ⟨inner, hinner, hconstant, hitems⟩ :=
      h.reads fun ⟨key, hlast, hcolon⟩ => hno ⟨key, hcore ▸ hlast, hcolon⟩
    rw [hinner] at hread
    refine ⟨.slice inner start? stop?, hread, fun hword => ?_, fun hword => ?_⟩
    · rw [items, hconstant ⟨hcore ▸ hword.1, hword.2⟩, sliceOf_nil]
    · rw [items, hitems fun hsliced => hword ⟨hcore ▸ hsliced.1, hsliced.2⟩]

/-- A text that is refused is one whose last step is a key with a colon. -/
theorem of_refused {name : Text} (hcolon : ':' ∈ name)
    (hread : ∃ text, read t = .error (.invalidSlice text)) :
    Agrees s t ⟨root, steps ++ [.key name]⟩ xs :=
  ⟨fun _ => hread, fun hno => absurd ⟨name, Path.core?_snoc root steps rfl, hcolon⟩ hno⟩

/-- One more step: the last step alone decides how the loop source comes from the one before. -/
theorem step {u : Text} {step : Step Text} (hbefore : PathText before ⟨root, steps⟩)
    (hstep : StepText u step)
    (h : Path.eval s.vars (evaluate s) ⟨root, steps ++ [step]⟩ = .list xs)
    (ih : ∀ ys, Path.eval s.vars (evaluate s) ⟨root, steps⟩ = .list ys →
      Agrees s before ⟨root, steps⟩ ys) :
    Agrees s (before ++ u) ⟨root, steps ++ [step]⟩ xs := by
  have hp := hbefore.step hstep
  have hsign : '.' ∈ before ++ u ∨ '[' ∈ before ++ u :=
    hstep.sign_mem.imp (List.mem_append_right _) (List.mem_append_right _)
  have hvalue : evaluate s (before ++ u) = .list xs :=
    (hp.evaluate_eq (not_mem_constantWords hsign) s).trans h
  cases hstep with
  | @dotted name hne hname =>
    obtain ⟨hslice, hkey⟩ := Step.ofAttribute_plain hname
    refine of_expression (read_of_no_group hp.trim_eq ?_) hvalue hslice hkey
    refine Nesting.trailingIndex?_eq_none fun hlast => ?_
    rw [List.getLast?_append, List.getLast?_cons_of_ne_nil hne,
      List.getLast?_eq_some_getLast hne, Option.some_or] at hlast
    have hchar := hname _ (List.getLast_mem hne)
    rw [Option.some.inj hlast] at hchar
    exact absurd hchar (by decide)
  | @group inside _ hbalanced hgroup =>
    have htrailing := Nesting.trailingIndex?_group hbefore.balanced hbalanced
    cases GroupKind.of_ofGroup? hgroup with
    | plain hbreak hslice hkey =>
      exact of_expression (read_of_plain hp.trim_eq htrailing hbreak) hvalue hslice hkey
    | slice hbreak hstart hstop =>
      rw [Path.eval_snoc] at h
      obtain ⟨ys, hys, rfl⟩ := Value.exists_of_atSlice_eq_list h
      exact (ih ys hys).slice (read_append_slice hbefore.balanced (.group hbalanced hgroup))
    | key hbreak hstart hcolon =>
      exact of_refused hcolon (exists_read_eq_error hp.trim_eq htrailing hbreak hstart)

/-- A path whose steps select a list agrees with its reading as a loop source. -/
theorem of_pathText {p : Path Text} (hp : PathText t p)
    (h : p.eval s.vars (evaluate s) = .list xs) : Agrees s t p xs := by
  induction hp generalizing xs with
  | root hroot => exact of_root hroot h
  | step hbefore hstep ih => exact step hbefore hstep h fun ys hys => ih hys

end Agrees

/-- A path that is a list, read as a loop source. A key with a colon at its end, or before the
slices at its end, makes the loop source invalid. Otherwise the loop source is valid, and it
has the items of the list, unless there is nothing before the slices but the word for a
constant: then it has no items. -/
theorem read_of_path_list {s : Scope} {t : Text} {p : Path Text} {xs : List Value}
    (hp : Path.read? t = some p) (h : evaluate s t = .list xs) :
    (p.EndsWithColonKey → ∃ text, read t = .error (.invalidSlice text)) ∧
      (¬ p.EndsWithColonKey → ∃ source, read t = .ok source ∧
        (p.IsSlicedConstant → source.items s = []) ∧
        (¬ p.IsSlicedConstant → source.items s = xs)) := by
  have hpath := PathText.iff_read?.2 hp
  have hword : t ∉ constantWords := by
    intro hword
    rcases evaluate_constantWord hword s with hnull | ⟨b, hbool⟩
    · cases h.symm.trans hnull
    · cases h.symm.trans hbool
  have hagrees := Agrees.of_pathText hpath ((hpath.evaluate_eq hword s).symm.trans h)
  exact ⟨hagrees.refused, hagrees.reads⟩

/-- Slices of a list under a key with a colon. -/
theorem read_of_path_list_of_slices :
    let s : Scope := ⟨[("m".toList, .map [("a:b".toList, .map [("xs".toList,
      .list [.bool true, .null, .bool false, .null])])])], Registry.empty⟩
    let t := "m['a:b'].xs[1:][:-1]".toList
    evaluate s t = .list [.null, .bool false] ∧
      ∃ source, read t = .ok source ∧ source.items s = [.null, .bool false] := by
  intro s t
  let p : Path Text := ⟨"m".toList, [.key "a:b".toList, .key "xs".toList, .slice (some 1) none,
    .slice none (some (-1))]⟩
  have hp : Path.read? t = some p := by decide +kernel
  have hvalue : evaluate s t = .list [.null, .bool false] := by with_unfolding_all rfl
  have hcore : p.core? = some (.key "xs".toList) := by decide
  obtain ⟨source, hread, -, hitems⟩ := (read_of_path_list hp hvalue).2 (by
    rintro ⟨key, hlast, hcolon⟩
    rw [hcore] at hlast
    cases hlast
    exact absurd hcolon (by decide))
  refine ⟨hvalue, source, hread, hitems ?_⟩
  rintro ⟨hnone, -⟩
  rw [hcore] at hnone
  cases hnone

/-- A path that ends with a key with a colon is a list, but no loop source. -/
theorem not_forall_read_of_path_list :
    ¬ ∀ (s : Scope) (t : Text) (p : Path Text) (xs : List Value), Path.read? t = some p →
      evaluate s t = .list xs → ∃ source, read t = .ok source ∧ source.items s = xs := by
  intro hall
  let s : Scope := ⟨[("m".toList, .map [("a:b".toList, .list [.null])])], Registry.empty⟩
  let t := "m['a:b']".toList
  have hp : Path.read? t = some ⟨"m".toList, [.key "a:b".toList]⟩ := by decide +kernel
  have hvalue : evaluate s t = .list [.null] := by with_unfolding_all rfl
  have herror : read t = .error (.invalidSlice t) := by decide +kernel
  obtain ⟨source, hread, -⟩ := hall s t _ _ hp hvalue
  rw [herror] at hread
  cases hread

end LoopSource

end PromptTemplate
