import PromptTemplate.Proofs.Template.Substitution

/-!
# Texts in templates

Any text can stand in a template as a literal, whatever marks, quotes and
brackets it holds: the literal is the value, the output and the message of a
raise that it was written for.
-/

namespace PromptTemplate

/-- The word before the argument of a raise. -/
def raiseWord : Text := "raise_exception".toList

/-- The call that raises, with its argument. -/
def raiseCall (argument : Text) : Text := raiseWord ++ '(' :: (argument ++ [')'])

/-- The first character of the call shows that no other word stands there. -/
theorem raiseCall_eq_cons (argument : Text) :
    raiseCall argument = 'r' :: (raiseWord.tail ++ '(' :: (argument ++ [')'])) := by
  have hword : raiseWord = 'r' :: raiseWord.tail := by decide
  rw [raiseCall, hword]
  rfl

section

variable {literal t : Text} {quote : Char}

/-- A literal is no raise: it begins with a quote. -/
theorem Token.raiseMessage?_of_read? (h : Literal.read? literal = some (quote, t)) :
    Token.raiseMessage? literal = none := by
  obtain ⟨hq, body, -, rfl⟩ := Literal.eq_of_read? h
  have hne : 'r' ≠ quote := by
    rintro rfl
    exact absurd hq (by decide)
  have hword : "raise_exception(".toList.isPrefixOf? (quote :: (body ++ [quote])) = none :=
    Text.isPrefixOf?_cons_of_ne hne _ _
  rw [Token.raiseMessage?, hword]
  rfl

/-- A literal may stand in a marker. -/
theorem Piece.isContent_of_read? (h : Literal.read? literal = some (quote, t)) :
    Piece.IsContent literal := by
  refine ⟨Literal.trim_of_read? h, (Nesting.scan_of_read? h).1, ?_⟩
  obtain ⟨hq, body, -, rfl⟩ := Literal.eq_of_read? h
  rw [← List.cons_append, List.getLast?_concat]
  intro hdash
  cases hdash
  exact absurd hq (by decide)

/-- The call of a raise may stand in a marker if its argument is balanced. -/
theorem Piece.isContent_raiseCall {argument : Text} (h : Nesting.isBalanced argument = true) :
    Piece.IsContent (raiseCall argument) := by
  have hlast : (raiseCall argument).getLast? = some ')' := by
    rw [raiseCall, ← List.cons_append, ← List.append_assoc, List.getLast?_concat]
  have hhead : (raiseCall argument).head? = some 'r' := by rw [raiseCall_eq_cons, List.head?_cons]
  refine ⟨Text.trim_eq_self hhead (by decide) hlast (by decide), ?_, ?_⟩
  · have hword : Nesting.isBalanced raiseWord = true := by decide
    exact Nesting.isBalanced_append hword (Nesting.isWord_group h).balanced
  · rw [hlast]
    decide

/-- The message of a raise is the meaning of its literal. -/
theorem Token.raiseMessage?_raiseCall (h : Literal.read? literal = some (quote, t)) :
    Token.raiseMessage? (raiseCall literal) = some t := by
  have hword : "raise_exception(".toList = raiseWord ++ ['('] := by decide
  have hcall : List.isPrefixOf? (raiseWord ++ ['(']) (raiseCall literal) =
      some (literal ++ [')']) := by
    rw [raiseCall, ← List.singleton_append, ← List.append_assoc]
    exact List.isPrefixOf?_eq_some_iff_append_eq.2 rfl
  have hargument : List.isSuffixOf? [')'] (literal ++ [')']) = some literal :=
    List.isSuffixOf?_eq_some_iff_append_eq.2 rfl
  rw [Token.raiseMessage?, hword, hcall]
  simp only [Option.bind_eq_bind, Option.bind_some, hargument, Literal.trim_of_read? h, h]
  rfl

/-- The block tag of a raise is read as the raise. -/
theorem Token.ofBlock_raiseCall (h : Literal.read? literal = some (quote, t)) :
    Token.ofBlock (raiseCall literal) = .ok (.raise t) := by
  have hword : Token.blockWord? (raiseCall literal) = none := by
    simp [Token.blockWord?, raiseCall_eq_cons, Text.isPrefixOf?_cons_of_ne]
  have hbare : Token.bareWord? (raiseCall literal) = none := by
    simp [Token.bareWord?, raiseCall_eq_cons]
  rw [Token.ofBlock, hword]
  simp only [hbare, Token.raiseMessage?_raiseCall h]

/-- A literal between the marks of an interpolation renders as its meaning. -/
theorem Engine.render_interpolated (e : Engine) (c : Context)
    (h : Literal.read? literal = some (quote, t)) :
    e.render ("\x7b\x7b ".toList ++ literal ++ " \x7d\x7d".toList) c = .ok t := by
  let passages : List Passage := [.value ⟨false, false⟩ literal]
  have hvalid : Passage.Valid (.value ⟨false, false⟩ literal) :=
    ⟨Piece.isContent_of_read? h, Token.raiseMessage?_of_read? h⟩
  have hpassages : Passage.Writable passages :=
    ⟨fun p hp => List.mem_singleton.1 hp ▸ hvalid, .singleton _⟩
  have hsource : "\x7b\x7b ".toList ++ literal ++ " \x7d\x7d".toList =
      Passage.printAll passages := by
    simp [passages, Passage.printAll, Passage.print, Piece.inside, Piece.dash]
  rw [hsource, (Passage.outputs_substituteAll hpassages.valid false).render
    (Passage.tokens_printAll hpassages) e c]
  have houtput (s : Scope) : Passage.substituteAll s false passages = t := by
    rw [Passage.substituteAll, Passage.substitute, evaluateJoined_of_read? h]
    exact List.append_nil t
  rw [houtput]

/-- A literal as the argument of a raise is the message. -/
theorem Engine.render_raiseCall (e : Engine) (c : Context)
    (h : Literal.read? literal = some (quote, t)) :
    e.render ("\x7b% raise_exception(".toList ++ literal ++ ") %\x7d".toList) c =
      .error (.raised ⟨t⟩) := by
  let pieces : List Piece := [.block ⟨false, false⟩ (raiseCall literal) (.raise t)]
  have hvalid : Piece.Valid (.block ⟨false, false⟩ (raiseCall literal) (.raise t)) :=
    ⟨Piece.isContent_raiseCall (Nesting.scan_of_read? h).1, Token.ofBlock_raiseCall h⟩
  have hpieces : Printable pieces :=
    ⟨fun p hp => List.mem_singleton.1 hp ▸ hvalid, .singleton _⟩
  have hsource : "\x7b% raise_exception(".toList ++ literal ++ ") %\x7d".toList =
      printAll pieces := by
    have hopen : "\x7b% raise_exception(".toList = '{' :: '%' :: ' ' :: (raiseWord ++ ['(']) := by
      decide
    rw [hopen]
    simp [pieces, printAll, Piece.print, Piece.inside, Piece.dash, raiseCall]
  have htokens : Token.ofSource (printAll pieces) = .ok [.raise t] := by
    rw [Token.ofSource, Segment.scan_printAll hpieces]
    exact Token.ofSegments_segments _ hpieces.valid false
  rw [hsource, Engine.render_of_derives e c htokens (Grammar.DerivesNode.raise t).single,
    renderAll_singleton, Node.render]
  rfl

end

/-- Every text has a literal, in either kind of quotes, that comes out as the text wherever
it stands: as an expression, as an operand, as output and as the message of a raise. -/
theorem literal_embeds {quote : Char} (hq : Nesting.isQuote quote = true) (t : Text) :
    let literal := Literal.write quote t
    (∀ s, evaluate s literal = .string t ∧ evaluateJoined s literal = .string t) ∧
      ∀ (e : Engine) (c : Context),
        e.render ("\x7b\x7b ".toList ++ literal ++ " \x7d\x7d".toList) c = .ok t ∧
          ∃ raised, e.render ("\x7b% raise_exception(".toList ++ literal ++ ") %\x7d".toList) c =
            .error (.raised raised) ∧ TemplateError.message (.raised raised) = t := by
  intro literal
  have hread : Literal.read? literal = some (quote, t) := Literal.read?_write hq t
  refine ⟨fun s => ⟨evaluate_of_read? hread s, evaluateJoined_of_read? hread s⟩, fun e c => ?_⟩
  exact ⟨Engine.render_interpolated e c hread, ⟨t⟩, Engine.render_raiseCall e c hread, rfl⟩

/-- A text with end marks, both quotes, a backslash, a line break, an open bracket and a dash
at its end. -/
theorem literal_embeds_of_marks :
    let t := "\x7d\x7d %\x7d \"'\\n\n[-".toList
    let e : Engine := ⟨Registry.empty, Options.standard⟩
    let embedded := "\x7b\x7b \"\x7d\x7d %\x7d \\\"'\\\\n\n[-\" \x7d\x7d".toList
    let raising := "\x7b% raise_exception('\x7d\x7d %\x7d \"\\'\\\\n\n[-') %\x7d".toList
    Nesting.isQuote '"' = true ∧ Nesting.isQuote '\'' = true ∧ e.render embedded [] = .ok t ∧
      e.render raising [] = .error (.raised ⟨t⟩) := by
  intro t e embedded raising
  have hdouble : Nesting.isQuote '"' = true := rfl
  have hsingle : Nesting.isQuote '\'' = true := rfl
  have hembedded : embedded =
      "\x7b\x7b ".toList ++ Literal.write '"' t ++ " \x7d\x7d".toList := by decide
  have hraising : raising = "\x7b% raise_exception(".toList ++ Literal.write '\'' t ++
      ") %\x7d".toList := by decide
  obtain ⟨raised, hraise, hmessage⟩ := ((literal_embeds hsingle t).2 e []).2
  obtain rfl : raised = ⟨t⟩ := congrArg Raised.mk hmessage
  rw [hembedded, hraising]
  exact ⟨hdouble, hsingle, ((literal_embeds hdouble t).2 e []).1, hraise⟩

end PromptTemplate
