import PromptTemplate.Engine
import PromptTemplate.Proofs.Expression.Literal
import PromptTemplate.Proofs.Template.Grammar
import PromptTemplate.Proofs.Template.Lexing

/-!
# Templates without blocks

A template of raw text, comments and interpolations is its own output, but for
the passages that stand for something else: a comment for nothing and an
interpolation for the text of its value. What is put in for an interpolation is
not looked at again, neither for markers nor for escapes.
-/

namespace PromptTemplate

/-- A passage of a template without blocks, as it is written: raw text, all that stands
between the delimiters of a comment, or an expression between blanks, with the dashes at
the delimiters around. -/
inductive Passage where
  | raw (text : Text)
  | comment (inside : Text)
  | value (dashes : Dashes) (expression : Text)
  deriving DecidableEq

namespace Passage

/-- The dashes of a comment are its first character and the last behind that. -/
def commentDashes : Text → Dashes
  | '-' :: body => ⟨true, body.getLast? == some '-'⟩
  | body => ⟨false, body.getLast? == some '-'⟩

/-- A single dash is not the dash at the end as well. -/
example : commentDashes "-".toList = ⟨true, false⟩ ∧
    commentDashes "--".toList = ⟨true, true⟩ ∧ commentDashes " -".toList = ⟨false, true⟩ := by
  decide

/-- Raw text. -/
def isRaw : Passage → Bool
  | .raw _ => true
  | _ => false

/-- The source of a passage. -/
def print : Passage → Text
  | .raw text => text
  | .comment inside => '{' :: '#' :: (inside ++ ['#', '}'])
  | .value dashes expression => '{' :: '{' :: (Piece.inside dashes expression ++ ['}', '}'])

/-- The passages that can be written. -/
def Valid : Passage → Prop
  | .raw text => text ≠ [] ∧ Piece.Markless text
  | .comment inside => ¬ ['#', '}'] <:+: inside
  | .value _ expression => Piece.IsContent expression ∧ Token.raiseMessage? expression = none

instance : DecidablePred Valid
  | .raw text => inferInstanceAs (Decidable (text ≠ [] ∧ Piece.Markless text))
  | .comment inside => inferInstanceAs (Decidable (¬ ['#', '}'] <:+: inside))
  | .value _ expression =>
    inferInstanceAs (Decidable (Piece.IsContent expression ∧
      Token.raiseMessage? expression = none))

/-- The piece of template source that a passage is, without the text of a comment. -/
def piece : Passage → Piece
  | .raw text => .raw text
  | .comment inside => .comment (commentDashes inside) []
  | .value dashes expression => .interpolation dashes expression

/-- What a passage stands for in a scope, behind a dash or not and before later passages. -/
def substitute (s : Scope) (afterDash : Bool) (later : List Passage) : Passage → Text
  | .raw text =>
    Trim.apply ⟨afterDash, dashAhead (later.map piece)⟩ (Text.expandNewlines text)
  | .comment _ => []
  | .value dashes expression =>
    Trim.apply ⟨dashes.opening, dashes.closing⟩ (evaluateJoined s expression).toText

/-- What passages stand for, one after the other. -/
def substituteAll (s : Scope) (afterDash : Bool) : List Passage → Text
  | [] => []
  | p :: later =>
    p.substitute s afterDash later ++ substituteAll s p.piece.closesWithDash later

/-- The source of passages. -/
def printAll (passages : List Passage) : Text := passages.flatMap print

/-- Passages that can be written one after the other: no raw text right behind raw text. -/
structure Writable (passages : List Passage) : Prop where
  valid : ∀ p ∈ passages, p.Valid
  apart : passages.IsChain fun p q => ¬ (p.isRaw = true ∧ q.isRaw = true)

instance (passages : List Passage) : Decidable (Writable passages) :=
  decidable_of_iff ((∀ p ∈ passages, p.Valid) ∧
    passages.IsChain fun p q => ¬ (p.isRaw = true ∧ q.isRaw = true))
    ⟨fun ⟨hv, ha⟩ => ⟨hv, ha⟩, fun ⟨hv, ha⟩ => ⟨hv, ha⟩⟩

/-!
### Cutting
-/

/-- A comment is the first segment, whatever stands in it. -/
theorem first_comment {inside : Text} (h : ¬ ['#', '}'] <:+: inside) (rest : Text) :
    Segment.first '{' ('#' :: (inside ++ '#' :: '}' :: rest)) =
      (.comment (commentDashes inside), rest) := by
  unfold commentDashes
  split
  · next body =>
    have hbody : ¬ ['#', '}'] <:+: body := fun hi => h (List.infix_cons hi)
    simp only [Segment.first, List.cons_append, Segment.openDash,
      Segment.breakComment_append hbody]
  · next hdash =>
    have hopen : Segment.openDash (inside ++ '#' :: '}' :: rest) =
        (false, inside ++ '#' :: '}' :: rest) := by
      unfold Segment.openDash
      split
      · next he =>
        cases inside with
        | nil => cases he
        | cons c inside => exact absurd (congrArg (· :: inside) (List.cons.inj he).1) (hdash inside)
      · rfl
    simp only [Segment.first, hopen, Segment.breakComment_append h]

/-- A written passage is cut off as its segment, and the cut goes on right behind it. -/
theorem scan_print {p : Passage} (h : p.Valid) {rest : Text}
    (hr : p.isRaw = true → rest = [] ∨ Segment.startsMarker rest = true) :
    Segment.scan (p.print ++ rest) = p.piece.segment :: Segment.scan rest := by
  cases p with
  | raw text => exact Segment.scan_print (p := .raw text) h hr
  | comment inside =>
    rw [print, List.cons_append, List.cons_append, List.append_assoc]
    exact Segment.scan_cons (first_comment h rest)
  | value dashes expression =>
    exact Segment.scan_print (p := .interpolation dashes expression) h.1 nofun

/-- A passage that is not raw text starts a marker. -/
theorem startsMarker_print {p : Passage} (h : p.isRaw = false) (rest : Text) :
    Segment.startsMarker (p.print ++ rest) = true := by
  cases p with
  | raw text => cases h
  | comment inside => rfl
  | value dashes expression => rfl

/-- Cutting written passages gives back their segments. -/
theorem scan_printAll {passages : List Passage} (h : Writable passages) :
    Segment.scan (printAll passages) = (passages.map piece).map Piece.segment := by
  rw [List.map_map]
  exact Segment.scan_flatMap h.apart (fun p hp _ hr => scan_print (h.valid p hp) hr)
    (fun _ _ hraw rest => startsMarker_print hraw rest)

/-- The piece of a passage can be written as well. -/
theorem Valid.piece {p : Passage} (h : p.Valid) : p.piece.Valid := by
  cases p with
  | raw text => exact h
  | comment inside => exact of_decide_eq_true rfl
  | value dashes expression => exact h.1

/-- Lexing written passages gives the tokens of their pieces. -/
theorem tokens_printAll {passages : List Passage} (h : Writable passages) :
    Token.ofSource (printAll passages) = .ok (tokensOf false (passages.map piece)) := by
  rw [Token.ofSource, scan_printAll h]
  refine Token.ofSegments_segments _ ?_ false
  intro q hq
  obtain ⟨p, hp, rfl⟩ := List.mem_map.1 hq
  exact (h.valid p hp).piece

end Passage

/-!
### Tokens with a fixed output
-/

/-- A source whose tokens make up nodes renders as these nodes in the prepared context. -/
theorem Engine.render_of_derives (e : Engine) (c : Context) {source : Text} {ts : List Token}
    {ns : List Node} (h : Token.ofSource source = .ok ts) (hns : Grammar.Derives ts ns) :
    e.render source c =
      (renderAll e.registry e.options ns (e.prepare c)).result.mapError .raised := by
  have htemplate : Template.ofSource source = .ok ns := by
    rw [Template.ofSource, h]
    exact Assembly.ofTokens_of_derives hns
  rw [Engine.render, htemplate]
  rfl

/-- The tokens make up nodes that give the output in every scope and bind nothing. -/
def Outputs (ts : List Token) (output : Scope → Text) : Prop :=
  ∃ ns, Grammar.Derives ts ns ∧ ∀ r o c, renderAll r o ns c = ⟨.ok (output ⟨c, r⟩), c⟩

namespace Outputs

variable {ts us : List Token} {t : Token} {n : Node} {x y : Scope → Text}

theorem nil : Outputs [] fun _ => [] := by
  refine ⟨[], .nil, fun r o c => ?_⟩
  rw [renderAll]

/-- One token whose node gives the output. -/
theorem single (hn : Grammar.DerivesNode [t] n)
    (hx : ∀ r o c, n.render r o c = ⟨.ok (x ⟨c, r⟩), c⟩) : Outputs [t] x := by
  refine ⟨[n], hn.single, fun r o c => ?_⟩
  rw [renderAll_singleton, hx]

/-- One output stands behind the other, in the same scope. -/
theorem append (hx : Outputs ts x) (hy : Outputs us y) :
    Outputs (ts ++ us) fun s => x s ++ y s := by
  obtain ⟨ns, hns, hfirst⟩ := hx
  obtain ⟨ms, hms, hsecond⟩ := hy
  refine ⟨ns ++ ms, hns.append hms, fun r o c => ?_⟩
  rw [renderAll_append_of_ok (hfirst r o c), hsecond]
  rfl

/-- A source whose tokens have an output renders as this output. -/
theorem render (hx : Outputs ts x) {source : Text} (h : Token.ofSource source = .ok ts)
    (e : Engine) (c : Context) :
    e.render source c = .ok (x ⟨e.prepare c, e.registry⟩) := by
  obtain ⟨ns, hns, hrender⟩ := hx
  rw [Engine.render_of_derives e c h hns, hrender]
  rfl

end Outputs

namespace Passage

/-- A value comes out as the text of its expression, also where the expression is a literal
that becomes text at once. -/
theorem outputs_value (dashes : Dashes) {expression : Text}
    (h : Token.raiseMessage? expression = none) (afterDash : Bool) (later : List Piece) :
    Outputs ((Piece.interpolation dashes expression).tokens afterDash later) fun s =>
      Trim.apply ⟨dashes.opening, dashes.closing⟩ (evaluateJoined s expression).toText := by
  rw [Piece.tokens, h]
  split
  · next hraise => cases hraise
  · next v _ hread =>
    refine Outputs.single (.text v ⟨dashes.opening, dashes.closing⟩) fun r o c => ?_
    rw [Node.render, evaluateJoined_of_read? hread]
    rfl
  · refine Outputs.single (.interpolation expression _) fun r o c => ?_
    rw [Node.render]

/-- The tokens of a passage give what it stands for. -/
theorem outputs_substitute {p : Passage} (h : p.Valid) (afterDash : Bool)
    (later : List Passage) :
    Outputs (p.piece.tokens afterDash (later.map piece)) fun s =>
      p.substitute s afterDash later := by
  cases p with
  | raw text =>
    refine Outputs.single (.text _ _) fun r o c => ?_
    rw [Node.render]
    rfl
  | comment inside => exact Outputs.nil
  | value dashes expression => exact outputs_value dashes h.2 afterDash (later.map piece)

/-- The tokens of passages give what the passages stand for, one after the other. -/
theorem outputs_substituteAll {passages : List Passage} (h : ∀ p ∈ passages, p.Valid)
    (afterDash : Bool) :
    Outputs (tokensOf afterDash (passages.map piece)) fun s =>
      substituteAll s afterDash passages := by
  induction passages generalizing afterDash with
  | nil => exact Outputs.nil
  | cons p later ih =>
    have hp : p.Valid := h p List.mem_cons_self
    have hlater := ih (fun q hq => h q (List.mem_cons_of_mem p hq)) p.piece.closesWithDash
    exact (outputs_substitute hp afterDash later).append hlater

end Passage

/-- A template without blocks always renders, as what its passages stand for in the prepared
context, one after the other. -/
theorem render_passages (e : Engine) (c : Context) {passages : List Passage}
    (h : Passage.Writable passages) :
    e.render (Passage.printAll passages) c =
      .ok (Passage.substituteAll ⟨e.prepare c, e.registry⟩ false passages) :=
  (Passage.outputs_substituteAll h.valid false).render (Passage.tokens_printAll h) e c

/-- A dash in a comment reaches the raw text over the comment before it, and a value that
reads like a template and an escape is put in as it is. -/
theorem render_passages_of_value_with_marker :
    let passages : List Passage :=
      [.raw "a\\n\t ".toList, .comment " x ".toList, .comment "-".toList,
        .value ⟨false, true⟩ "x".toList, .raw "  b\\n ".toList,
        .value ⟨true, false⟩ "\" \x7d\x7d\\n\"".toList, .comment "--".toList, .raw " c".toList]
    let c : Context := [("x".toList, .string " \x7b\x7b y \x7d\x7d\\n ".toList)]
    Passage.Writable passages ∧
      Passage.printAll passages =
        ("a\\n\t \x7b# x #\x7d\x7b#-#\x7d\x7b\x7b x -\x7d\x7d  b\\n " ++
          "\x7b\x7b- \" \x7d\x7d\\n\" \x7d\x7d\x7b#--#\x7d c").toList ∧
      Engine.render ⟨Registry.empty, Options.standard⟩ (Passage.printAll passages) c =
        .ok "a\n \x7b\x7b y \x7d\x7d\\nb\n\x7d\x7d\nc".toList := by
  intro passages c
  have h : Passage.Writable passages := by decide
  have hrender := render_passages ⟨Registry.empty, Options.standard⟩ c h
  refine ⟨h, by decide, hrender.trans ?_⟩
  with_unfolding_all rfl

end PromptTemplate
