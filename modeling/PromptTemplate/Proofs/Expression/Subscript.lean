import PromptTemplate.Proofs.Expression.WrittenPath
import PromptTemplate.Proofs.Value.Tokens

/-!
# Subscripts

A path between brackets behind another path selects what its value selects. A
text selects as the key that it is, a number that is an integer as the index,
whichever way these are written out; nothing else selects anything. But the
inside of a bracket is cut at its first colon before it is evaluated, also where
the colon stands in a quoted key or in a slice. What stands before the colon
begins like a name and is no bound, so such a text is no path at all, and null.
-/

namespace PromptTemplate

/-- A text with a subscript behind it. -/
def subscripted (t inside : Text) : Text := t ++ '[' :: (inside ++ [']'])

/-- The literal subscripts that a value stands for: a text is a key, and a number that is an
integer is an index. -/
inductive Value.WrittenAs : Value → Text → Prop
  | key {quote : Char} (hquote : Nesting.isQuote quote = true) (name : Text) :
      WrittenAs (.string name) (Literal.write quote name)
  | index {x : Number} {i : Int} (hx : x.exactInt? = some i) :
      WrittenAs (.number x) (Text.ofInt i)

/-- A value that no literal subscript stands for selects nothing. -/
theorem Value.atValue_eq_null {selector : Value} (h : ∀ literal, ¬ selector.WrittenAs literal)
    (v : Value) : v.atValue selector = .null := by
  have hkey (name : Text) : (Value.string name).WrittenAs (Literal.write '"' name) := .key rfl name
  cases selector with
  | string name => exact absurd (hkey name) (h _)
  | number x =>
    cases hx : x.exactInt? with
    | none =>
      rw [atValue, hx]
      rfl
    | some i => exact absurd (.index hx) (h _)
  | _ => rfl

/-!
### The step of a path in a bracket
-/

section

variable {t e : Text} {p q : Path Text}

/-- What begins like a name is no bound. -/
theorem Step.readBound?_of_isNameStart {c : Char} (h : Text.isNameStart c = true) (t : Text) :
    readBound? (c :: t) = none := by
  have hblank : Text.isBlank c = false := Nesting.not_blank_of_isPlain
    (Nesting.isPlain_of_isNameChar (Text.isNameChar_of_isNameStart h))
  have hhead : (Text.trimStart (c :: t)).head? = some c := by
    rw [Text.trimStart_cons_of_not_blank hblank]
    rfl
  refine readBound?_eq_none hhead hblank (Text.not_digit_of_isNameStart h) ?_ ?_
  · rintro rfl
    exact absurd h (by decide)
  · rintro rfl
    exact absurd h (by decide)

/-- A path without a colon is left to be evaluated. One with a colon is refused. -/
theorem Step.ofGroup?_of_path (he : PathText e q) :
    ofGroup? e = if ':' ∈ e then none else some (.dynamic e) := by
  obtain ⟨c, rest, rfl, hstart⟩ := he.exists_cons
  have hliteral := Literal.read?_of_isNameStart hstart rest
  have hinteger := Text.readInt?_of_isNameStart hstart rest
  by_cases hcolon : ':' ∈ c :: rest
  · obtain ⟨start, stop, hcut, hfirst⟩ := List.eq_append_cons_of_mem hcolon
    have hbreak : Text.breakOn [':'] (c :: rest) = some (start, stop) := by
      rw [hcut, Text.breakOn_singleton hfirst]
    have hbound : readBound? start = none := by
      cases start with
      | nil =>
        obtain ⟨rfl, -⟩ := List.cons.inj hcut
        exact absurd hstart (by decide)
      | cons d start =>
        obtain ⟨rfl, -⟩ := List.cons.inj hcut
        exact readBound?_of_isNameStart hstart start
    rw [ofGroup?, if_neg (List.cons_ne_nil c rest), hliteral, hinteger, hbreak, if_pos hcolon]
    simp only [hbound]
    rfl
  · rw [ofGroup?, if_neg (List.cons_ne_nil c rest), hliteral, hinteger,
      Text.breakOn_eq_none hcolon, if_neg hcolon]

/-!
### Values of subscripts
-/

/-- A step behind a path selects from the value of the path. -/
theorem PathText.evaluate_append {u : Text} {step : Step Text} (ht : PathText t p)
    (hstep : StepText u step) (s : Scope) :
    evaluate s (t ++ u) = step.select (evaluate s) (p.eval s.vars (evaluate s)) := by
  have hword : t ++ u ∉ constantWords := not_mem_constantWords
    (hstep.sign_mem.imp (List.mem_append_right _) (List.mem_append_right _))
  obtain ⟨root, steps⟩ := p
  rw [(ht.step hstep).evaluate_eq hword, Path.eval_snoc]

/-- A path without a colon selects by its value. -/
theorem evaluate_subscripted (ht : PathText t p) (he : PathText e q) (hcolon : ':' ∉ e)
    (s : Scope) : evaluate s (subscripted t e) =
      (p.eval s.vars (evaluate s)).atValue (evaluate s e) := by
  have hgroup : Step.ofGroup? (Text.trim e) = some (.dynamic e) := by
    rw [he.trim_eq, Step.ofGroup?_of_path he, if_neg hcolon]
  exact ht.evaluate_append (.group he.balanced hgroup) s

/-- A literal subscript selects what a value selects that it stands for. -/
theorem evaluate_subscripted_literal (ht : PathText t p) {v : Value} {literal : Text}
    (h : v.WrittenAs literal) (s : Scope) : evaluate s (subscripted t literal) =
      (p.eval s.vars (evaluate s)).atValue v := by
  cases h with
  | @key quote hquote name =>
    have hgroup : Step.ofGroup? (Text.trim (Literal.write quote name)) = some (.key name) := by
      rw [(Nesting.isWord_write hquote name).trim, Step.ofGroup?_write hquote]
    exact ht.evaluate_append (.group (Nesting.isBalanced_write hquote name) hgroup) s
  | @index x i hx =>
    have hword := (isKeyword_ofInt i).isWord
    have hgroup : Step.ofGroup? (Text.trim (Text.ofInt i)) = some (.index i) := by
      rw [hword.trim, Step.ofGroup?_ofInt (Value.isWord_of_exactInt? hx)]
    have hselect : (p.eval s.vars (evaluate s)).atValue (.number x) =
        (p.eval s.vars (evaluate s)).atIndex i := by
      rw [Value.atValue, hx]
      rfl
    rw [hselect]
    exact ht.evaluate_append (.group hword.balanced hgroup) s

/-- A subscript looks like a path whatever stands in it, be it balanced. -/
theorem PathText.pathLike_subscripted (ht : PathText t p) {inside : Text}
    (hinside : Nesting.isBalanced inside = true) : PathLike (subscripted t inside) := by
  obtain ⟨c, rest, htext, hstart⟩ := ht.exists_cons
  refine ⟨⟨c, rest ++ '[' :: (inside ++ [']']), ?_, hstart⟩, ⟨']', ?_, .inr rfl⟩, fun d hd => ?_⟩
  · rw [subscripted, htext, List.cons_append]
  · rw [subscripted, ← List.cons_append, ← List.append_assoc, List.getLast?_concat]
  · rw [subscripted, Nesting.State.visible_append, Nesting.State.run_of_closes ht.balanced,
      Nesting.visible_bracket hinside] at hd
    rcases List.mem_append.1 hd with hd | hd
    · exact ht.char_of_mem_visible hd
    · exact .inr (List.mem_cons_of_mem '.' hd)

/-- A path with a colon as its subscript makes a text null: it looks like a path, but is none. -/
theorem evaluate_subscripted_of_colon (ht : PathText t p) (he : PathText e q) (hcolon : ':' ∈ e)
    (s : Scope) : evaluate s (subscripted t e) = .null := by
  have hsteps : Step.readAll? ('[' :: (e ++ [']'])) = none := by
    rw [Step.readAll?_open (Nesting.State.closeIndex_of_closes he.balanced []), he.trim_eq,
      Step.ofGroup?_of_path he, if_pos hcolon, Option.bind_none]
  have hread : Path.read? (subscripted t e) = none := by
    have hopen : ∀ c ∈ ('[' :: (e ++ [']'])).head?, Text.isNameChar c = false := by
      intro c hc
      cases hc
      decide
    rw [subscripted, ht.read?_append hopen, hsteps, Option.map_none]
  have hword : subscripted t e ∉ constantWords :=
    not_mem_constantWords (.inr (List.mem_append_right _ List.mem_cons_self))
  rw [evaluate_eq, (ht.pathLike_subscripted he.balanced).ofText_eq hword, hread]
  rfl

/-- A path as the subscript of a path. If there is no colon in it, not even in a quoted key, it
selects what the literal subscript for its value selects, and nothing if there is none. With a
colon in it the whole text is no path and null. -/
theorem evaluate_dynamic_subscript (s : Scope) (ht : Path.read? t = some p)
    (he : Path.read? e = some q) :
    (':' ∉ e →
      (∀ literal, (evaluate s e).WrittenAs literal →
        evaluate s (subscripted t e) = evaluate s (subscripted t literal)) ∧
      ((∀ literal, ¬ (evaluate s e).WrittenAs literal) →
        evaluate s (subscripted t e) = .null)) ∧
    (':' ∈ e → evaluate s (subscripted t e) = .null) := by
  have htext := PathText.iff_read?.2 ht
  have hsubscript := PathText.iff_read?.2 he
  refine ⟨fun hcolon => ⟨fun literal hliteral => ?_, fun hnone => ?_⟩, fun hcolon => ?_⟩
  · rw [evaluate_subscripted htext hsubscript hcolon,
      evaluate_subscripted_literal htext hliteral]
  · rw [evaluate_subscripted htext hsubscript hcolon, Value.atValue_eq_null hnone]
  · exact evaluate_subscripted_of_colon htext hsubscript hcolon s

end

/-- A nested subscript whose value is a key, an attribute whose value is an index, a map, and a
quoted key with a colon whose value would be a key. -/
theorem evaluate_dynamic_subscript_of_kinds :
    let s : Scope := ⟨[("p".toList, .map [("it's".toList, .bool true), ("1".toList, .bool false)]),
      ("m".toList, .map [("k".toList, .string "it's".toList), ("n".toList, .string ['k']),
        ("i".toList, .ofNat 1), ("a:b".toList, .string "it's".toList)])], Registry.empty⟩
    let t := "p".toList
    Path.read? t = some ⟨['p'], []⟩ ∧
      Path.read? "m[m.n]".toList = some ⟨['m'], [.dynamic "m.n".toList]⟩ ∧
      Path.read? "m.i".toList = some ⟨['m'], [.key ['i']]⟩ ∧
      Path.read? "m".toList = some ⟨['m'], []⟩ ∧
      Path.read? "m['a:b']".toList = some ⟨['m'], [.key "a:b".toList]⟩ ∧
      evaluate s (subscripted t "m[m.n]".toList) = evaluate s "p['it\\'s']".toList ∧
      evaluate s "p['it\\'s']".toList = .bool true ∧
      evaluate s (subscripted t "m.i".toList) = evaluate s "p[1]".toList ∧
      evaluate s "p[1]".toList = .bool false ∧
      evaluate s (subscripted t "m".toList) = .null ∧
      evaluate s (subscripted t "m['a:b']".toList) = .null := by
  intro s t
  have ht : Path.read? t = some ⟨['p'], []⟩ := by decide +kernel
  have hnested : Path.read? "m[m.n]".toList = some ⟨['m'], [.dynamic "m.n".toList]⟩ := by
    decide +kernel
  have hattribute : Path.read? "m.i".toList = some ⟨['m'], [.key ['i']]⟩ := by decide +kernel
  have hmap : Path.read? "m".toList = some ⟨['m'], []⟩ := by decide +kernel
  have hquoted : Path.read? "m['a:b']".toList = some ⟨['m'], [.key "a:b".toList]⟩ := by
    decide +kernel
  have hkey : (evaluate s "m[m.n]".toList).WrittenAs (Literal.write '\'' "it's".toList) := by
    have hvalue : evaluate s "m[m.n]".toList = .string "it's".toList := by with_unfolding_all rfl
    rw [hvalue]
    exact .key rfl _
  have hindex : (evaluate s "m.i".toList).WrittenAs ['1'] := by
    have hvalue : evaluate s "m.i".toList = .ofNat 1 := by with_unfolding_all rfl
    have htext : Text.ofInt 1 = ['1'] := by decide +kernel
    rw [hvalue, ← htext]
    exact .index (by decide +kernel)
  have hnone : ∀ literal, ¬ (evaluate s "m".toList).WrittenAs literal := by
    have hvalue : ∃ entries, evaluate s "m".toList = .map entries :=
      ⟨_, by with_unfolding_all rfl⟩
    obtain ⟨entries, hvalue⟩ := hvalue
    rw [hvalue]
    exact fun _ => nofun
  refine ⟨ht, hnested, hattribute, hmap, hquoted, ?_, ?_, ?_, ?_, ?_, ?_⟩
  · exact ((evaluate_dynamic_subscript s ht hnested).1 (by decide)).1 _ hkey
  · with_unfolding_all rfl
  · exact ((evaluate_dynamic_subscript s ht hattribute).1 (by decide)).1 _ hindex
  · with_unfolding_all rfl
  · exact ((evaluate_dynamic_subscript s ht hmap).1 (by decide)).2 hnone
  · exact (evaluate_dynamic_subscript s ht hquoted).2 (by decide)

/-- A quoted key with a colon, the value of which is a key: as a subscript it selects nothing. -/
theorem not_forall_evaluate_dynamic_subscript :
    ¬ ∀ (s : Scope) (t e : Text) (p q : Path Text) (literal : Text), Path.read? t = some p →
      Path.read? e = some q → (evaluate s e).WrittenAs literal →
        evaluate s (subscripted t e) = evaluate s (subscripted t literal) := by
  intro h
  let s : Scope := ⟨[("p".toList, .map [("x".toList, .bool true)]),
    ("m".toList, .map [("a:b".toList, .string ['x'])])], Registry.empty⟩
  have ht : Path.read? "p".toList = some ⟨['p'], []⟩ := by decide +kernel
  have he : Path.read? "m['a:b']".toList = some ⟨['m'], [.key "a:b".toList]⟩ := by
    decide +kernel
  have hvalue : evaluate s "m['a:b']".toList = .string ['x'] := by with_unfolding_all rfl
  have hliteral : (evaluate s "m['a:b']".toList).WrittenAs (Literal.write '\'' ['x']) := by
    rw [hvalue]
    exact .key rfl _
  have hclaimed := h s _ _ _ _ _ ht he hliteral
  have htext := PathText.iff_read?.2 ht
  rw [evaluate_subscripted_of_colon htext (PathText.iff_read?.2 he) (by decide),
    evaluate_subscripted_literal htext hliteral, hvalue] at hclaimed
  cases hclaimed

end PromptTemplate
