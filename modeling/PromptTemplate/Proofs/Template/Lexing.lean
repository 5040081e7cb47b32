import Mathlib.Data.List.Chain
import Mathlib.Data.List.Infix
import PromptTemplate.Proofs.Nesting.Composition
import PromptTemplate.Template.Token

/-!
# Lexing what was written

Template source is written piece by piece: raw text and markers, with a dash at
a delimiter or without. Cutting the written source gives back exactly these
pieces, whatever quotes, brackets and end marks stand inside a balanced content,
and each piece gives exactly its token. A dash reaches the raw text beside it: on
the left over one border only, on the right also over comments.
-/

namespace PromptTemplate

/-- A piece of template source as it is written. A block tag comes with the token that
its content stands for. -/
inductive Piece where
  | raw (text : Text)
  | comment (dashes : Dashes) (body : Text)
  | interpolation (dashes : Dashes) (content : Text)
  | block (dashes : Dashes) (content : Text) (token : Token)
  deriving DecidableEq

namespace Piece

/-- Raw text. -/
def isRaw : Piece → Bool
  | .raw _ => true
  | _ => false

/-- Comments. -/
def isComment : Piece → Bool
  | .comment _ _ => true
  | _ => false

/-- The marker of the piece has a dash at its start. -/
def opensWithDash : Piece → Bool
  | .raw _ => false
  | .comment dashes _ => dashes.opening
  | .interpolation dashes _ => dashes.opening
  | .block dashes _ _ => dashes.opening

/-- The marker of the piece has a dash before its end. -/
def closesWithDash : Piece → Bool
  | .raw _ => false
  | .comment dashes _ => dashes.closing
  | .interpolation dashes _ => dashes.closing
  | .block dashes _ _ => dashes.closing

/-- A dash or nothing. -/
def dash (present : Bool) : Text := if present then ['-'] else []

/-- What stands between the delimiters of a marker: the content with a blank on each side,
and the dashes beside the delimiters. -/
def inside (dashes : Dashes) (content : Text) : Text :=
  dash dashes.opening ++ ' ' :: (content ++ ' ' :: dash dashes.closing)

/-- The source of a piece. -/
def print : Piece → Text
  | .raw text => text
  | .comment dashes body => '{' :: '#' :: (inside dashes body ++ ['#', '}'])
  | .interpolation dashes content => '{' :: '{' :: (inside dashes content ++ ['}', '}'])
  | .block dashes content _ => '{' :: '%' :: (inside dashes content ++ ['%', '}'])

/-- Text without a marker, also none that begins with its last character. -/
structure Markless (t : Text) : Prop where
  interpolation : ¬ ['{', '{'] <:+: t
  block : ¬ ['{', '%'] <:+: t
  comment : ¬ ['{', '#'] <:+: t
  last : t.getLast? ≠ some '{'

/-- Without its first character the text still has no marker. -/
theorem Markless.tail {c : Char} {t : Text} (h : Markless (c :: t)) : Markless t := by
  refine ⟨fun hi => h.interpolation (List.infix_cons hi), fun hi => h.block (List.infix_cons hi),
    fun hi => h.comment (List.infix_cons hi), fun hl => h.last ?_⟩
  cases t with
  | nil => cases hl
  | cons d t => exact hl

instance (t : Text) : Decidable (Markless t) :=
  decidable_of_iff (¬ ['{', '{'] <:+: t ∧ ¬ ['{', '%'] <:+: t ∧ ¬ ['{', '#'] <:+: t ∧
    t.getLast? ≠ some '{')
    ⟨fun ⟨hi, hb, hc, hl⟩ => ⟨hi, hb, hc, hl⟩, fun ⟨hi, hb, hc, hl⟩ => ⟨hi, hb, hc, hl⟩⟩

/-- What may stand in an interpolation or a block tag. -/
structure IsContent (t : Text) : Prop where
  trimmed : Text.trim t = t
  balanced : Nesting.isBalanced t = true
  last : t.getLast? ≠ some '-'

instance (t : Text) : Decidable (IsContent t) :=
  decidable_of_iff (Text.trim t = t ∧ Nesting.isBalanced t = true ∧ t.getLast? ≠ some '-')
    ⟨fun ⟨ht, hb, hl⟩ => ⟨ht, hb, hl⟩, fun ⟨ht, hb, hl⟩ => ⟨ht, hb, hl⟩⟩

/-- The pieces that can be written. -/
def Valid : Piece → Prop
  | .raw text => text ≠ [] ∧ Markless text
  | .comment _ body => ¬ ['#', '}'] <:+: body
  | .interpolation _ content => IsContent content
  | .block _ content token => IsContent content ∧ Token.ofBlock content = .ok token

instance : DecidablePred Valid
  | .raw text => inferInstanceAs (Decidable (text ≠ [] ∧ Markless text))
  | .comment _ body => inferInstanceAs (Decidable (¬ ['#', '}'] <:+: body))
  | .interpolation _ content => inferInstanceAs (Decidable (IsContent content))
  | .block _ content token =>
    inferInstanceAs (Decidable (IsContent content ∧ Token.ofBlock content = .ok token))

/-- The segment that a piece is. -/
def segment : Piece → Segment
  | .raw text => .raw text
  | .comment dashes _ => .comment dashes
  | .interpolation dashes content => .interpolation dashes content
  | .block dashes content _ => .block dashes content

end Piece

/-- Pieces that can be written one after the other: no raw text right behind raw text. -/
structure Printable (pieces : List Piece) : Prop where
  valid : ∀ p ∈ pieces, p.Valid
  apart : pieces.IsChain fun p q => ¬ (p.isRaw = true ∧ q.isRaw = true)

instance (pieces : List Piece) : Decidable (Printable pieces) :=
  decidable_of_iff ((∀ p ∈ pieces, p.Valid) ∧
    pieces.IsChain fun p q => ¬ (p.isRaw = true ∧ q.isRaw = true))
    ⟨fun ⟨hv, ha⟩ => ⟨hv, ha⟩, fun ⟨hv, ha⟩ => ⟨hv, ha⟩⟩

/-- Whether a dash asks to trim the end of raw text: at the start of a comment right
behind it, or of the first marker behind those comments. -/
def dashAhead (later : List Piece) : Bool :=
  (later.takeWhile Piece.isComment).any Piece.opensWithDash ||
    (later.dropWhile Piece.isComment).head?.any Piece.opensWithDash

/-- The tokens of a piece, none or one. -/
def Piece.tokens (afterDash : Bool) (later : List Piece) : Piece → List Token
  | .raw text => [.text (Text.expandNewlines text) ⟨afterDash, dashAhead later⟩]
  | .comment _ _ => []
  | .interpolation dashes content =>
    match Token.raiseMessage? content, Literal.read? content with
    | some message, _ => [.raise message]
    | none, some ('"', value) => [.text value ⟨dashes.opening, dashes.closing⟩]
    | none, _ => [.interpolation content ⟨dashes.opening, dashes.closing⟩]
  | .block _ _ token => [token]

/-- The tokens of pieces in order. -/
def tokensOf (afterDash : Bool) : List Piece → List Token
  | [] => []
  | p :: later => p.tokens afterDash later ++ tokensOf p.closesWithDash later

/-- The source of pieces. -/
def printAll (pieces : List Piece) : Text := pieces.flatMap Piece.print

/-!
### Cutting
-/

namespace Segment

/-- The dash at the start of a marker is taken off its inside. -/
theorem openDash_inside (dashes : Dashes) (content rest : Text) :
    openDash (Piece.inside dashes content ++ rest) =
      (dashes.opening, ' ' :: (content ++ ' ' :: Piece.dash dashes.closing) ++ rest) := by
  obtain ⟨opening, closing⟩ := dashes
  cases opening <;> rfl

/-- The dash before the end of a marker is taken off, and so are the blanks. -/
theorem closeDash_content {t : Text} (h : Piece.IsContent t) (closing : Bool) :
    closeDash (' ' :: (t ++ ' ' :: Piece.dash closing)) = (closing, t) := by
  have htrim : Text.trim (' ' :: (t ++ [' '])) = t :=
    Text.trim_between_blanks h.trimmed rfl rfl
  cases closing with
  | true =>
    have hend : Text.trimEnd (' ' :: (t ++ [' ', '-'])) = ' ' :: (t ++ [' ']) ++ ['-'] := by
      rw [← Text.trimEnd_append_of_not_blank (c := '-') rfl, List.cons_append, List.append_assoc]
      rfl
    have hdash : List.isSuffixOf? ['-'] (' ' :: (t ++ [' ']) ++ ['-']) =
        some (' ' :: (t ++ [' '])) := List.isSuffixOf?_eq_some_iff_append_eq.2 rfl
    simp only [closeDash, Piece.dash, if_true, hend, hdash, htrim]
  | false =>
    have hnone : List.isSuffixOf? ['-'] (Text.trimEnd (' ' :: (t ++ [' ']))) = none := by
      refine Text.isSuffixOf?_eq_none (c := '-') rfl ?_
      rw [← List.cons_append, Text.trimEnd_append_of_blank rfl]
      by_cases ht : t = []
      · rw [ht]
        decide
      · rw [Text.trimEnd_cons (Text.trimEnd_eq_self h.trimmed) ht, List.getLast?_cons]
        have hlast := h.last
        cases hl : t.getLast? with
        | none => exact absurd (List.getLast?_eq_none_iff.1 hl) ht
        | some c => simpa [hl] using hlast
    simp only [closeDash, Piece.dash, Bool.false_eq_true, if_false, hnone, htrim]

/-- The inside of a marker behind its first dash is balanced. -/
theorem closes_content {t : Text} (h : Piece.IsContent t) (closing : Bool) :
    Nesting.isBalanced (' ' :: (t ++ ' ' :: Piece.dash closing)) = true := by
  have hspace : Nesting.isBalanced [' '] = true := Nesting.isBalanced_singleton rfl rfl rfl
  have hdash : Nesting.isBalanced (' ' :: Piece.dash closing) = true := by
    cases closing <;> decide
  exact Nesting.isBalanced_append (t := [' ']) hspace
    (Nesting.isBalanced_append h.balanced hdash)

/-- The inside of a marker ends with a blank or a dash. -/
theorem getLast?_content {t : Text} (closing : Bool) {c : Char} (hs : c ≠ ' ') (hd : c ≠ '-') :
    (' ' :: (t ++ ' ' :: Piece.dash closing)).getLast? ≠ some c := by
  have hlast : (' ' :: Piece.dash closing).getLast? ≠ some c := by
    cases closing
    · exact fun h => hs (Option.some.inj h).symm
    · exact fun h => hd (Option.some.inj h).symm
  rw [← List.cons_append, List.getLast?_append]
  cases h : (' ' :: Piece.dash closing).getLast? with
  | none => simp at h
  | some d => rwa [h] at hlast

/-- The end mark is found behind the inside of a marker, whatever stands in it. -/
theorem breakAt_content {t : Text} (h : Piece.IsContent t) (closing : Bool) {m : Char}
    (hq : Nesting.isQuote m = false) (ho : Nesting.isOpener m = false) (hs : m ≠ ' ')
    (hd : m ≠ '-') (rest : Text) :
    Nesting.breakAt [m, '}'] (' ' :: (t ++ ' ' :: Piece.dash closing) ++ m :: '}' :: rest) =
      some (' ' :: (t ++ ' ' :: Piece.dash closing), rest) :=
  Nesting.State.breakAt_of_closes hq ho rfl (closes_content h closing)
    (getLast?_content closing hs hd) rest

/-- The end of a comment is found behind what stands in it. -/
theorem breakComment_append {body : Text} (h : ¬ ['#', '}'] <:+: body) (rest : Text) :
    breakComment (body ++ '#' :: '}' :: rest) = (body.getLast? == some '-', rest) := by
  rw [breakComment, Text.breakOn_append (by decide) h]

/-- The end of a comment is found behind its inside, with the dash before it. -/
theorem breakComment_inside {body : Text} (h : ¬ ['#', '}'] <:+: body) (closing : Bool)
    (rest : Text) :
    breakComment (' ' :: (body ++ ' ' :: Piece.dash closing) ++ '#' :: '}' :: rest) =
      (closing, rest) := by
  have hinside : ¬ ['#', '}'] <:+: ' ' :: (body ++ ' ' :: Piece.dash closing) := by
    intro hi
    rcases List.infix_cons_iff.1 hi with hi | hi
    · obtain ⟨u, hu⟩ := hi
      simp at hu
    · rcases Text.pair_isInfix_append hi with hi | hi | hi
      · exact h hi
      · revert hi
        cases closing <;> decide
      · simp at hi
  have hdash : ((' ' :: (body ++ ' ' :: Piece.dash closing)).getLast? == some '-') = closing := by
    rw [← List.cons_append, List.getLast?_append]
    cases closing <;> rfl
  rw [breakComment_append hinside, hdash]

/-- No marker starts in raw text. -/
theorem startsMarker_of_markless {c : Char} {t : Text} (h : Piece.Markless (c :: t))
    (rest : Text) : startsMarker (c :: (t ++ rest)) = false := by
  by_cases hc : c = '{'
  · subst hc
    cases t with
    | nil => exact absurd rfl h.last
    | cons d t =>
      have hi : d ≠ '{' := fun hd => h.interpolation ⟨[], t, by rw [hd]; rfl⟩
      have hb : d ≠ '%' := fun hd => h.block ⟨[], t, by rw [hd]; rfl⟩
      have hn : d ≠ '#' := fun hd => h.comment ⟨[], t, by rw [hd]; rfl⟩
      simp [startsMarker, hi, hb, hn]
  · unfold startsMarker
    split
    · next he => exact absurd (List.cons.inj he).1 hc
    · rfl

/-- Raw text ends where a marker starts or the source ends. -/
theorem spanRaw_of_markless {t : Text} (h : Piece.Markless t) {rest : Text}
    (hr : rest = [] ∨ startsMarker rest = true) : spanRaw (t ++ rest) = (t, rest) := by
  induction t with
  | nil =>
    cases rest with
    | nil => rfl
    | cons c rest =>
      have hstart : startsMarker (c :: rest) = true := hr.resolve_left (List.cons_ne_nil _ _)
      rw [List.nil_append, spanRaw, if_pos hstart]
  | cons c t ih =>
    have hstart := startsMarker_of_markless h rest
    rw [List.cons_append, spanRaw, if_neg (by rw [hstart]; decide), ih h.tail]

/-- Where no marker starts, the first segment is raw text. -/
theorem first_of_plain {c : Char} {rest : Text} (h : startsMarker (c :: rest) = false) :
    first c rest = (.raw (c :: (spanRaw rest).1), (spanRaw rest).2) := by
  unfold first
  split
  · cases h
  · cases h
  · cases h
  · rfl

/-- A written comment is the first segment. -/
theorem first_comment {body : Text} (h : ¬ ['#', '}'] <:+: body) (dashes : Dashes)
    (rest : Text) :
    first '{' ('#' :: (Piece.inside dashes body ++ '#' :: '}' :: rest)) =
      (.comment dashes, rest) := by
  have hopen := openDash_inside dashes body ('#' :: '}' :: rest)
  have hbreak := breakComment_inside h dashes.closing rest
  simp only [first, hopen, hbreak]

/-- A written interpolation is the first segment. -/
theorem first_interpolation {content : Text} (h : Piece.IsContent content) (dashes : Dashes)
    (rest : Text) :
    first '{' ('{' :: (Piece.inside dashes content ++ '}' :: '}' :: rest)) =
      (.interpolation dashes content, rest) := by
  have hopen := openDash_inside dashes content ('}' :: '}' :: rest)
  have hbreak := breakAt_content h dashes.closing (m := '}') rfl rfl (by decide) (by decide) rest
  have hclose := closeDash_content h dashes.closing
  simp only [first, hopen, breakInterpolation, hbreak, Option.some_or, Option.getD_some, hclose]

/-- A written block tag is the first segment. -/
theorem first_block {content : Text} (h : Piece.IsContent content) (dashes : Dashes)
    (rest : Text) :
    first '{' ('%' :: (Piece.inside dashes content ++ '%' :: '}' :: rest)) =
      (.block dashes content, rest) := by
  have hopen := openDash_inside dashes content ('%' :: '}' :: rest)
  have hbreak := breakAt_content h dashes.closing (m := '%') rfl rfl (by decide) (by decide) rest
  have hclose := closeDash_content h dashes.closing
  simp only [first, hopen, hbreak, hclose]

/-- A source whose first segment is known is that segment and the cut of the rest. -/
theorem scan_cons {c : Char} {rest after : Text} {segment : Segment}
    (h : first c rest = (segment, after)) : scan (c :: rest) = segment :: scan after := by
  rw [scan, h]

/-- A written piece is cut off as its segment, and the cut goes on right behind it. -/
theorem scan_print {p : Piece} (h : p.Valid) {rest : Text}
    (hr : p.isRaw = true → rest = [] ∨ startsMarker rest = true) :
    scan (p.print ++ rest) = p.segment :: scan rest := by
  cases p with
  | raw text =>
    obtain ⟨hne, hm⟩ := h
    cases text with
    | nil => exact absurd rfl hne
    | cons c t =>
      have hspan : spanRaw (t ++ rest) = (t, rest) := spanRaw_of_markless hm.tail (hr rfl)
      have hfirst : first c (t ++ rest) = (.raw (c :: t), rest) := by
        rw [first_of_plain (startsMarker_of_markless hm rest), hspan]
      exact scan_cons hfirst
  | comment dashes body =>
    rw [Piece.print, List.cons_append, List.cons_append, List.append_assoc]
    exact scan_cons (first_comment h dashes rest)
  | interpolation dashes content =>
    rw [Piece.print, List.cons_append, List.cons_append, List.append_assoc]
    exact scan_cons (first_interpolation h dashes rest)
  | block dashes content token =>
    rw [Piece.print, List.cons_append, List.cons_append, List.append_assoc]
    exact scan_cons (first_block h.1 dashes rest)

/-- A piece that is not raw text starts a marker. -/
theorem startsMarker_print {p : Piece} (h : p.isRaw = false) (rest : Text) :
    startsMarker (p.print ++ rest) = true := by
  cases p with
  | raw text => cases h
  | comment dashes body => rfl
  | interpolation dashes content => rfl
  | block dashes content token => rfl

/-- Sources that are each cut off as one segment, and that start a marker unless they are
raw text, are cut one after the other if no raw text stands right behind raw text. -/
theorem scan_flatMap {α : Type} {print : α → Text} {segment : α → Segment} {isRaw : α → Bool}
    {ps : List α} (hapart : ps.IsChain fun p q => ¬ (isRaw p = true ∧ isRaw q = true))
    (hcut : ∀ p ∈ ps, ∀ rest, (isRaw p = true → rest = [] ∨ startsMarker rest = true) →
      scan (print p ++ rest) = segment p :: scan rest)
    (hstart : ∀ p ∈ ps, isRaw p = false → ∀ rest, startsMarker (print p ++ rest) = true) :
    scan (ps.flatMap print) = ps.map segment := by
  induction ps with
  | nil => rw [List.flatMap_nil, scan, List.map_nil]
  | cons p ps ih =>
    have hbehind : isRaw p = true →
        ps.flatMap print = [] ∨ startsMarker (ps.flatMap print) = true := by
      intro hp
      cases ps with
      | nil => exact Or.inl rfl
      | cons q ps =>
        have hq : isRaw q = false := by
          have hboth := (List.isChain_cons_cons.1 hapart).1
          cases hraw : isRaw q with
          | true => exact absurd ⟨hp, hraw⟩ hboth
          | false => rfl
        rw [List.flatMap_cons]
        exact Or.inr (hstart q (List.mem_cons_of_mem p List.mem_cons_self) hq _)
    have hlater := ih hapart.tail (fun q hq => hcut q (List.mem_cons_of_mem p hq))
      (fun q hq => hstart q (List.mem_cons_of_mem p hq))
    rw [List.flatMap_cons, hcut p List.mem_cons_self _ hbehind, hlater, List.map_cons]

/-- Cutting written source gives back its pieces. -/
theorem scan_printAll {pieces : List Piece} (h : Printable pieces) :
    scan (printAll pieces) = pieces.map Piece.segment :=
  scan_flatMap h.apart (fun p hp _ hr => scan_print (h.valid p hp) hr)
    (fun _ _ hraw rest => startsMarker_print hraw rest)

end Segment

/-!
### Tokens of pieces
-/

namespace Token

/-- A segment closes with a dash if its piece does. -/
theorem closesWithDash_segment (p : Piece) : p.segment.closesWithDash = p.closesWithDash := by
  cases p with
  | raw text => rfl
  | comment dashes body => rfl
  | interpolation dashes content => rfl
  | block dashes content token => rfl

/-- The dash that trims raw text on the right is looked for over comments only. -/
theorem dashFollows_segments (later : List Piece) :
    dashFollows (later.map Piece.segment) = dashAhead later := by
  induction later with
  | nil => rfl
  | cons p later ih =>
    cases p with
    | raw text => rfl
    | interpolation dashes content => rfl
    | block dashes content token => rfl
    | comment dashes body =>
      have hstep : dashAhead (.comment dashes body :: later) =
          (dashes.opening || dashAhead later) := Bool.or_assoc _ _ _
      rw [hstep, ← ih]
      rfl

/-- A segment gives the tokens of its piece. -/
theorem ofSegment_segment (size : Nat) (afterDash : Bool) {p : Piece} (h : p.Valid)
    (later : List Piece) :
    ofSegment size afterDash (later.map Piece.segment) p.segment =
      .ok (p.tokens afterDash later) := by
  cases p with
  | raw text =>
    rw [Piece.segment, ofSegment, dashFollows_segments]
    rfl
  | comment dashes body => rfl
  | interpolation dashes content =>
    rw [Piece.segment, ofSegment, ofInterpolation, Piece.tokens]
    cases Token.raiseMessage? content with
    | some message => rfl
    | none =>
      cases hread : Literal.read? content with
      | none => rfl
      | some found =>
        obtain ⟨quote, value⟩ := found
        by_cases hquote : quote = '"'
        · subst hquote
          rfl
        · simp [hquote]
  | block dashes content token =>
    have htoken : ofBlock content = .ok token := h.2
    rw [Piece.segment, ofSegment, htoken]
    rfl

/-- The segments of pieces give the tokens of the pieces, in order. -/
theorem ofSegments_segments (size : Nat) {pieces : List Piece} (h : ∀ p ∈ pieces, p.Valid)
    (afterDash : Bool) :
    ofSegments size afterDash (pieces.map Piece.segment) = .ok (tokensOf afterDash pieces) := by
  induction pieces generalizing afterDash with
  | nil => rfl
  | cons p later ih =>
    have hp : p.Valid := h p List.mem_cons_self
    have hlater := ih (fun q hq => h q (List.mem_cons_of_mem p hq)) p.closesWithDash
    rw [List.map_cons, ofSegments, ofSegment_segment size afterDash hp later,
      closesWithDash_segment, hlater]
    rfl

end Token

/-- Lexing written source gives exactly the tokens of its pieces, with their trims. -/
theorem ofSource_printAll {pieces : List Piece} (h : Printable pieces) :
    Token.ofSource (printAll pieces) = .ok (tokensOf false pieces) := by
  rw [Token.ofSource, Segment.scan_printAll h]
  exact Token.ofSegments_segments _ h.valid false

/-- Quoted end marks do not end a marker, and dashes reach raw text over comments on the
right only. -/
theorem ofSource_quoted_ends_and_dashes :
    let pieces : List Piece :=
      [.raw "a\\n ".toList, .comment ⟨false, true⟩ "x".toList, .comment ⟨false, false⟩ [],
        .interpolation ⟨true, false⟩ "f('\x7d\x7d', [b])".toList, .raw " c ".toList,
        .block ⟨false, true⟩ "if d == \"%\x7d\"".toList (.ifStart "d == \"%\x7d\"".toList),
        .raw " e ".toList, .block ⟨false, false⟩ "endif".toList (.terminator .endIf)]
    Printable pieces ∧
      Token.ofSource (printAll pieces) =
        .ok [.text "a\n ".toList ⟨false, true⟩,
          .interpolation "f('\x7d\x7d', [b])".toList ⟨true, false⟩,
          .text " c ".toList ⟨false, false⟩, .ifStart "d == \"%\x7d\"".toList,
          .text " e ".toList ⟨true, false⟩, .terminator .endIf] := by
  intro pieces
  have h : Printable pieces := by decide
  have htokens := ofSource_printAll h
  exact ⟨h, htokens.trans (by decide)⟩

end PromptTemplate
