import PromptTemplate.Proofs.Template.Embedding

/-!
# Literals that become text

An interpolation of one double-quoted literal becomes text when the source is
lexed. Had it stayed an interpolation, nothing would be different: the literal
has its meaning as value in every context, and it is trimmed by the dashes of its
own marker and by no others, as every interpolation is.
-/

namespace PromptTemplate

mutual

/-- A node and the same node with some of its texts spelled as literals: text becomes the
interpolation of a literal for it, with the same trims. -/
inductive Node.Respelled : Node → Node → Prop
  | same (n : Node) : Node.Respelled n n
  | literal {expression value : Text} (trim : Trim) :
      Literal.read? expression = some ('"', value) →
      Node.Respelled (.text value trim) (.interpolation expression trim)
  | branch (condition : Condition) {children others otherwise others' : List Node} :
      RespelledAll children others → RespelledAll otherwise others' →
      Node.Respelled (.branch condition children otherwise) (.branch condition others others')
  | loop (item : Text) (source : LoopSource) {children others : List Node} :
      RespelledAll children others →
      Node.Respelled (.loop item source children) (.loop item source others)

/-- Nodes, each with some of its texts spelled as literals. -/
inductive RespelledAll : List Node → List Node → Prop
  | nil : RespelledAll [] []
  | cons {n m : Node} {ns ms : List Node} :
      Node.Respelled n m → RespelledAll ns ms → RespelledAll (n :: ns) (m :: ms)

end

section

variable (r : Registry) (o : Options)

mutual

/-- A node does the same however its texts are spelled. -/
theorem Node.render_respelled {n m : Node} (h : n.Respelled m) (c : Context) :
    n.render r o c = m.render r o c := by
  match h with
  | .same n => rfl
  | .literal trim hread =>
    rw [Node.render, Node.render, evaluateJoined_of_read? hread]
    rfl
  | .branch condition hchildren hotherwise =>
    rw [Node.render, Node.render, renderAll_respelled hchildren, renderAll_respelled hotherwise]
  | .loop item source hchildren =>
    have hbody := renderAll_respelled hchildren
    simp only [Node.render, hbody]

/-- Nodes do the same however their texts are spelled. -/
theorem renderAll_respelled {ns ms : List Node} (h : RespelledAll ns ms) (c : Context) :
    renderAll r o ns c = renderAll r o ms c := by
  match h with
  | .nil => rfl
  | .cons hfirst hlater =>
    have hrest := renderAll_respelled hlater
    rw [renderAll, renderAll, Node.render_respelled hfirst]
    simp only [hrest]

end

end

/-!
### Trims of markers
-/

namespace Token

/-- What follows an interpolation does not matter to raw text before it. -/
theorem dashFollows_append (before : List Segment) (dashes : Dashes) (content : Text)
    (later others : List Segment) :
    dashFollows (before ++ .interpolation dashes content :: later) =
      dashFollows (before ++ .interpolation dashes content :: others) := by
  induction before with
  | nil => rfl
  | cons segment before ih =>
    cases segment with
    | comment d => exact congrArg (d.opening || ·) ih
    | _ => rfl

/-- Of the segments behind it only a dash matters to a segment. -/
theorem ofSegment_congr {later others : List Segment} (h : dashFollows later = dashFollows others)
    (size : Nat) (afterDash : Bool) (segment : Segment) :
    ofSegment size afterDash later segment = ofSegment size afterDash others segment := by
  cases segment with
  | raw value => rw [ofSegment, ofSegment, h]
  | _ => rfl

/-- The tokens up to an interpolation are the same whatever follows it, and its own token is
made of its content and its own dashes. -/
theorem exists_ofSegments_interpolation (size : Nat) (afterDash : Bool) (before : List Segment)
    (dashes : Dashes) (content : Text) :
    ∃ first : Except SyntaxError (List Token), ∀ later,
      ofSegments size afterDash (before ++ .interpolation dashes content :: later) = do
        return (← first) ++ ofInterpolation ⟨dashes.opening, dashes.closing⟩ content ::
          (← ofSegments size dashes.closing later) := by
  induction before generalizing afterDash with
  | nil => exact ⟨.ok [], fun later => rfl⟩
  | cons segment before ih =>
    obtain ⟨first, hfirst⟩ := ih segment.closesWithDash
    let own := ofSegment size afterDash (before ++ [.interpolation dashes content]) segment
    refine ⟨do return (← own) ++ (← first), fun later => ?_⟩
    have hown : ofSegment size afterDash (before ++ .interpolation dashes content :: later)
        segment = own := ofSegment_congr (dashFollows_append before dashes content later []) ..
    rw [List.cons_append, ofSegments, hown, hfirst]
    cases own with
    | error e => rfl
    | ok tokens =>
      cases first with
      | error e => rfl
      | ok first =>
        cases ofSegments size dashes.closing later with
        | error e => rfl
        | ok rest => exact congrArg Except.ok (List.append_assoc tokens first _).symm

/-- An interpolation of a double-quoted literal is lexed as text. -/
theorem ofInterpolation_of_read? {content value : Text}
    (h : Literal.read? content = some ('"', value)) (trim : Trim) :
    ofInterpolation trim content = .text value trim := by
  rw [ofInterpolation, raiseMessage?_of_read? h, h]
  rfl

end Token

/-- Nobody can tell that a literal has become text. Wherever the texts of a template are
replaced by interpolations of literals for them, the outcome is the same in every context. And
the token of an interpolation, which is text with the same trims for a literal, depends on what
it stands in by its own dashes only: nothing behind it can trim it, no more than anything
before it. -/
theorem literal_text_unobservable :
    (∀ ns ms, RespelledAll ns ms → ∀ r o c, renderAll r o ns c = renderAll r o ms c) ∧
    (∀ content value, Literal.read? content = some ('"', value) →
      ∀ trim, Token.ofInterpolation trim content = .text value trim) ∧
    ∀ (size : Nat) (afterDash : Bool) (before : List Segment) (dashes : Dashes) (content : Text),
      ∃ first : Except SyntaxError (List Token), ∀ later,
        Token.ofSegments size afterDash (before ++ .interpolation dashes content :: later) = do
          return (← first) ++ Token.ofInterpolation ⟨dashes.opening, dashes.closing⟩ content ::
            (← Token.ofSegments size dashes.closing later) :=
  ⟨fun _ _ h r o c => renderAll_respelled r o h c,
    fun _ _ h trim => Token.ofInterpolation_of_read? h trim,
    Token.exists_ofSegments_interpolation⟩

/-- Literals with plus signs, a bar, a bracket and an escape in them, in a branch and in a loop,
and a literal that ends with a blank before a marker with a dash and before one without. -/
theorem literal_text_unobservable_of_blank_end :
    let value := "a+b|c \"[".toList
    let content := "\"a+b|c \\\"[\"".toList
    let tree (spelled : Trim → Node) : List Node :=
      [.branch (.literal "xs".toList)
        [.loop "x".toList (.expression "xs".toList)
          [spelled ⟨true, false⟩, .assign "y".toList "x".toList, .text value ⟨false, false⟩]] [],
        spelled ⟨false, true⟩]
    let c : Context := [("xs".toList, .list [.null, .bool true])]
    let render (ns : List Node) := renderAll Registry.empty Options.standard ns c
    let lexed (behind : Text) := Token.ofSource ("a \x7b\x7b- \"b \" \x7d\x7d".toList ++ behind)
    render (tree (.text value)) = render (tree (.interpolation content)) ∧
      Token.ofInterpolation ⟨true, false⟩ content = .text value ⟨true, false⟩ ∧
      lexed "\x7b%- else %\x7d".toList =
        .ok [.text "a ".toList ⟨false, true⟩, .text "b ".toList ⟨true, false⟩,
          .terminator .otherwise] ∧
      lexed "\x7b%  else %\x7d".toList = lexed "\x7b%- else %\x7d".toList := by
  intro value content tree c render lexed
  have hread : Literal.read? content = some ('"', value) := by decide
  obtain ⟨htree, htoken, hlexed⟩ := literal_text_unobservable
  have hspelled (trim : Trim) : Node.Respelled (.text value trim) (.interpolation content trim) :=
    .literal trim hread
  have hbody : RespelledAll [.text value ⟨true, false⟩, .assign "y".toList "x".toList,
      .text value ⟨false, false⟩] [.interpolation content ⟨true, false⟩,
        .assign "y".toList "x".toList, .text value ⟨false, false⟩] :=
    .cons (hspelled _) (.cons (.same _) (.cons (.same _) .nil))
  have hloop : RespelledAll [_] [_] :=
    .cons (.loop "x".toList (.expression "xs".toList) hbody) .nil
  refine ⟨htree _ _ (.cons (.branch _ hloop .nil) (.cons (hspelled _) .nil)) _ _ _,
    htoken content value hread _, ?_, ?_⟩
  · with_unfolding_all rfl
  · let before : List Segment := [.raw "a ".toList]
    let literal : Segment := .interpolation ⟨true, false⟩ "\"b \"".toList
    let size := Text.byteSize "a \x7b\x7b- \"b \" \x7d\x7d\x7b%- else %\x7d".toList
    obtain ⟨first, hfirst⟩ := hlexed size false before ⟨true, false⟩ "\"b \"".toList
    have hdash : lexed "\x7b%- else %\x7d".toList =
        Token.ofSegments size false (before ++ literal :: [.block ⟨true, false⟩ "else".toList]) := by
      with_unfolding_all rfl
    have hplain : lexed "\x7b%  else %\x7d".toList =
        Token.ofSegments size false (before ++ literal :: [.block ⟨false, false⟩ "else".toList]) := by
      with_unfolding_all rfl
    rw [hdash, hplain, hfirst, hfirst]
    rfl

end PromptTemplate
