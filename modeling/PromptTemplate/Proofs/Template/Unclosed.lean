import PromptTemplate.Proofs.Template.Grammar
import PromptTemplate.Proofs.Template.Lexing

/-!
# Tags without an end

Only a block tag can be without an end, and then everything before it is a source
of its own: each piece before the tag ends at a mark that stands before the tag,
so it ends there also when the source is cut off in front of the tag. Where an
interpolation ends because no end mark stands at the top level of the whole rest,
none stands at the top level of the part that is left.
-/

namespace PromptTemplate

namespace Text

/-- The sizes of texts in a row add up. -/
theorem byteSize_append (t u : Text) : byteSize (t ++ u) = byteSize t + byteSize u := by
  have hfrom (n : Nat) (v : Text) :
      v.foldl (fun n c => n + c.utf8Size) n = n + byteSize v := by
    induction v generalizing n with
    | nil => rfl
    | cons c v ih =>
      rw [byteSize, List.foldl_cons, List.foldl_cons, ih, ih (0 + c.utf8Size)]
      omega
  rw [byteSize, List.foldl_append, hfrom]
  rfl

end Text

namespace Segment

/-!
### Cutting behind a piece
-/

section

variable {α β γ : Type}

/-- What is taken off the start of a text is the same when the text is cut somewhere behind
it. -/
def Local (take : Text → α × Text) : Prop :=
  ∀ (t x y : Text) (piece : α), y ≠ [] → take t = (piece, x ++ y) →
    ∃ u, t = u ++ y ∧ take u = (piece, x)

/-- Two pieces in a row are taken off the start if each is. -/
theorem Local.andThen {first : Text → α × Text} {second : Text → β × Text}
    (hfirst : Local first) (hsecond : Local second) (f : α → β → γ) :
    Local fun t => (f (first t).1 (second (first t).2).1, (second (first t).2).2) := by
  intro t x y piece hy h
  obtain ⟨hpiece, hrest⟩ := Prod.mk.inj h
  obtain ⟨v, hv, htaken⟩ := hsecond _ _ _ _ hy (Prod.ext rfl hrest)
  obtain ⟨u, hu, hopened⟩ := hfirst _ _ _ _ hy (Prod.ext rfl hv)
  refine ⟨u, hu, ?_⟩
  simp only [hopened, htaken, hpiece]

end

/-- The dash at the start of a marker is taken off. -/
theorem local_openDash : Local openDash := by
  intro t x y dash hy h
  unfold openDash at h
  split at h
  next rest =>
    obtain ⟨rfl, rfl⟩ := Prod.mk.inj h
    exact ⟨'-' :: x, rfl, rfl⟩
  next rest hnone =>
    obtain ⟨rfl, rfl⟩ := Prod.mk.inj h
    refine ⟨x, rfl, ?_⟩
    unfold openDash
    split
    next rest => exact absurd rfl (hnone (rest ++ y))
    next => rfl

/-- What stands in a comment is taken off. -/
theorem local_breakComment : Local breakComment := by
  intro t x y closing hy h
  unfold breakComment at h
  split at h
  next content rest hbreak =>
    obtain ⟨rfl, rfl⟩ := Prod.mk.inj h
    refine ⟨content ++ ['#', '}'] ++ x, ?_, ?_⟩
    · rw [Text.eq_of_breakOn hbreak, List.append_assoc _ x y]
    · rw [breakComment, Text.breakOn_before hbreak x]
  next =>
    have hnil : x ++ y = [] := (Prod.mk.inj h).2.symm
    exact absurd (List.append_eq_nil_iff.1 hnil).2 hy

/-- What stands in an interpolation is taken off, wherever its end is found. -/
theorem local_breakInterpolation : Local breakInterpolation := by
  intro t x y content hy h
  have hmark : (['}', '}'] : Text) ≠ [] := List.cons_ne_nil _ _
  rw [breakInterpolation] at h
  cases htop : Nesting.breakAt ['}', '}'] t with
  | some found =>
    rw [htop] at h
    obtain rfl : found = (content, x ++ y) := h
    refine ⟨content ++ ['}', '}'] ++ x, ?_, ?_⟩
    · rw [Nesting.eq_of_breakAt htop, List.append_assoc _ x y]
    · rw [breakInterpolation, Nesting.breakAt, Nesting.State.breakAt_before hmark htop x]
      rfl
  | none =>
    cases hplain : Text.breakOn ['}', '}'] t with
    | some found =>
      rw [htop, hplain] at h
      obtain rfl : found = (content, x ++ y) := h
      have hwhole : t = content ++ ['}', '}'] ++ x ++ y := by
        rw [Text.eq_of_breakOn hplain, List.append_assoc _ x y]
      refine ⟨content ++ ['}', '}'] ++ x, hwhole, ?_⟩
      -- An end mark at the top level of the part would be one of the whole.
      rw [hwhole] at htop
      have hnone := Nesting.State.breakAt_eq_none_before hmark htop
      rw [breakInterpolation, Nesting.breakAt, hnone, Text.breakOn_before hplain x]
      rfl
    | none =>
      rw [htop, hplain] at h
      have hnil : x ++ y = [] := (Prod.mk.inj h).2.symm
      exact absurd (List.append_eq_nil_iff.1 hnil).2 hy

/-- A comment behind its first characters. -/
theorem local_comment :
    Local fun t => (Segment.comment ⟨(openDash t).1, (breakComment (openDash t).2).1⟩,
      (breakComment (openDash t).2).2) :=
  local_openDash.andThen local_breakComment fun opening closing =>
    Segment.comment ⟨opening, closing⟩

/-- An interpolation behind its first characters. -/
theorem local_interpolation :
    Local fun t => (Segment.interpolation
      ⟨(openDash t).1, (closeDash (breakInterpolation (openDash t).2).1).1⟩
      (closeDash (breakInterpolation (openDash t).2).1).2,
      (breakInterpolation (openDash t).2).2) :=
  local_openDash.andThen local_breakInterpolation fun opening content =>
    Segment.interpolation ⟨opening, (closeDash content).1⟩ (closeDash content).2

/-- A piece that is taken off behind two characters is taken off with them. -/
theorem Local.marker {take : Text → Segment × Text} (h : Local take) {m : Char}
    (hfirst : ∀ t, first '{' (m :: t) = take t) {t x y : Text} {segment : Segment} (hy : y ≠ [])
    (htaken : first '{' (m :: t) = (segment, x ++ y)) :
    ∃ u, m :: t = u ++ y ∧ first '{' u = (segment, x) ∧
      startsMarker ('{' :: u) = startsMarker ('{' :: m :: t) := by
  rw [hfirst] at htaken
  obtain ⟨u, rfl, hu⟩ := h t x y segment hy htaken
  exact ⟨m :: u, rfl, (hfirst u).trans hu, rfl⟩

/-- A block tag with an end is taken off. -/
theorem block_before {t x y : Text} {segment : Segment} (hy : y ≠ [])
    (h : first '{' ('%' :: t) = (segment, x ++ y)) :
    ∃ u, '%' :: t = u ++ y ∧ first '{' u = (segment, x) ∧
      startsMarker ('{' :: u) = startsMarker ('{' :: '%' :: t) := by
  have hmark : (['%', '}'] : Text) ≠ [] := List.cons_ne_nil _ _
  simp only [first] at h
  split at h
  next =>
    have hnil : x ++ y = [] := (Prod.mk.inj h).2.symm
    exact absurd (List.append_eq_nil_iff.1 hnil).2 hy
  next content after hbreak =>
    obtain ⟨rfl, rfl⟩ := Prod.mk.inj h
    have hinside : (openDash t).2 = content ++ ['%', '}'] ++ x ++ y := by
      rw [Nesting.eq_of_breakAt hbreak, List.append_assoc _ x y]
    obtain ⟨u, rfl, hu⟩ := local_openDash t _ y _ hy (Prod.ext rfl hinside)
    have hcut : Nesting.breakAt ['%', '}'] (content ++ ['%', '}'] ++ x) = some (content, x) :=
      Nesting.State.breakAt_before hmark hbreak x
    exact ⟨'%' :: u, rfl, by simp only [first, hu, hcut], rfl⟩

/-- Where no marker starts none starts when the text is cut off behind. -/
theorem startsMarker_eq_false_before {t y : Text} (h : startsMarker (t ++ y) = false) :
    startsMarker t = false := by
  unfold startsMarker
  split
  · exact h
  · rfl

/-- Behind raw text a marker starts, or nothing follows. -/
theorem startsMarker_spanRaw (t : Text) :
    (spanRaw t).2 = [] ∨ startsMarker (spanRaw t).2 = true := by
  induction t with
  | nil => exact .inl rfl
  | cons c rest ih =>
    rw [spanRaw]
    split
    next hstart => exact .inr hstart
    next => exact ih

/-- Raw text is taken off up to the next marker. -/
theorem spanRaw_before {t x y : Text} (hy : y ≠ []) (h : (spanRaw t).2 = x ++ y)
    (hx : x = [] ∨ startsMarker x = true) :
    ∃ u, t = u ++ y ∧ spanRaw u = ((spanRaw t).1, x) := by
  induction t with
  | nil => exact absurd (List.append_eq_nil_iff.1 h.symm).2 hy
  | cons c rest ih =>
    rw [spanRaw] at h ⊢
    split at h
    next hstart =>
      refine ⟨x, h, ?_⟩
      rw [if_pos hstart]
      rcases hx with rfl | hx
      · rfl
      · cases x with
        | nil => cases hx
        | cons d x => rw [spanRaw, if_pos hx]
    next hplain =>
      obtain ⟨u, rfl, hu⟩ := ih h
      have hu' : ¬ startsMarker (c :: u) = true := by
        have hcut := startsMarker_eq_false_before (t := c :: u) (y := y)
          (Bool.eq_false_iff.2 hplain)
        rw [hcut]
        decide
      exact ⟨c :: u, rfl, by rw [if_neg hplain, spanRaw, if_neg hu', hu]⟩

/-- The first segment is the same when the source is cut somewhere behind it. -/
theorem first_before {c : Char} {rest x y : Text} {segment : Segment} (hy : y ≠ [])
    (h : first c rest = (segment, x ++ y)) (hx : x = [] ∨ startsMarker x = startsMarker (x ++ y)) :
    ∃ u, rest = u ++ y ∧ first c u = (segment, x) ∧
      startsMarker (c :: u) = startsMarker (c :: rest) := by
  cases hstart : startsMarker (c :: rest) with
  | false =>
    rw [first_of_plain hstart] at h
    obtain ⟨rfl, hrest⟩ := Prod.mk.inj h
    have hbehind : startsMarker (x ++ y) = true := by
      rcases startsMarker_spanRaw rest with hnil | hmarker
      · rw [hnil] at hrest
        exact absurd (List.append_eq_nil_iff.1 hrest.symm).2 hy
      · rwa [hrest] at hmarker
    rw [hbehind] at hx
    obtain ⟨u, rfl, hu⟩ := spanRaw_before hy hrest hx
    have hcut := startsMarker_eq_false_before (t := c :: u) hstart
    exact ⟨u, rfl, by rw [first_of_plain hcut, hu], hcut⟩
  | true =>
    unfold startsMarker at hstart
    split at hstart
    next m t he =>
      obtain ⟨rfl, rfl⟩ := List.cons.inj he
      have hm : (m = '{' ∨ m = '%') ∨ m = '#' := by simpa using hstart
      rcases hm with (rfl | rfl) | rfl
      · exact local_interpolation.marker (fun _ => rfl) hy h
      · exact block_before hy h
      · exact local_comment.marker (fun _ => rfl) hy h
    next => cases hstart

/-!
### Cutting in front of a tag
-/

/-- A block tag without an end. -/
def IsOpenTag (t : Text) : Prop :=
  ∃ inside, t = '{' :: '%' :: inside ∧ Nesting.breakAt ['%', '}'] (openDash inside).2 = none

/-- A segment without an end is a block tag without an end, up to the end of the source. -/
theorem isOpenTag_of_first {c : Char} {rest t after : Text}
    (h : first c rest = (.unclosed t, after)) : t = c :: rest ∧ IsOpenTag t := by
  unfold first at h
  split at h
  · cases h
  · cases h
  next inside =>
    simp only at h
    split at h
    next hnone =>
      obtain ⟨ht, -⟩ := Prod.mk.inj h
      obtain rfl := Segment.unclosed.inj ht
      exact ⟨rfl, inside, rfl, hnone⟩
    next => cases h
  · cases h

/-- A source is cut into its first segment and the segments behind it. -/
theorem scan_first (c : Char) (rest : Text) :
    scan (c :: rest) = (first c rest).1 :: scan (first c rest).2 := scan_cons rfl

/-- **Segments in front of a tag without an end.** Cut off in front of the tag, the source has
the segments before it. -/
theorem scan_before {source t : Text} {segments later : List Segment}
    (h : scan source = segments ++ .unclosed t :: later) :
    IsOpenTag t ∧ ∃ before, source = before ++ t ∧ scan before = segments ∧
      (before = [] ∨ startsMarker before = startsMarker source) := by
  induction segments generalizing source with
  | nil =>
    cases source with
    | nil => rw [scan] at h; cases h
    | cons c rest =>
      rw [scan_first] at h
      obtain ⟨hfirst, -⟩ := List.cons.inj h
      obtain ⟨rfl, hopen⟩ := isOpenTag_of_first (Prod.ext hfirst rfl)
      exact ⟨hopen, [], rfl, by rw [scan], .inl rfl⟩
  | cons segment segments ih =>
    cases source with
    | nil => rw [scan] at h; cases h
    | cons c rest =>
      rw [scan_first] at h
      obtain ⟨hfirst, hlater⟩ := List.cons.inj h
      obtain ⟨hopen, x, hx, hscan, hstart⟩ := ih hlater
      have ht : t ≠ [] := by
        obtain ⟨inside, rfl, -⟩ := hopen
        exact List.cons_ne_nil _ _
      rw [hx] at hstart
      obtain ⟨u, rfl, hu, hmarker⟩ := first_before ht (Prod.ext hfirst hx) hstart
      refine ⟨hopen, c :: u, rfl, ?_, .inr hmarker⟩
      rw [scan_cons hu, hscan]

/-!
### Sources without a tag
-/

/-- Block tags, with an end and without. -/
def isTag : Segment → Bool
  | .block _ _ => true
  | .unclosed _ => true
  | _ => false

/-- What stands behind a segment is an end of the source. -/
theorem first_isSuffix (c : Char) (rest : Text) : (first c rest).2 <:+ rest := by
  cases hrest : (first c rest).2 with
  | nil => exact List.nil_suffix
  | cons d after =>
    obtain ⟨u, hu, -⟩ := first_before (List.cons_ne_nil d after) (Prod.ext rfl hrest) (.inl rfl)
    exact ⟨u, hu.symm⟩

/-- A block tag begins with its mark. -/
theorem isPrefix_of_isTag {c : Char} {rest : Text} (h : (first c rest).1.isTag = true) :
    ['{', '%'] <+: c :: rest := by
  unfold first at h
  split at h
  · cases h
  · cases h
  next inside => exact ⟨inside, rfl⟩
  · cases h

/-- Only where a block tag starts there is a block tag. -/
theorem isInfix_of_isTag {source : Text} {segment : Segment} (h : segment ∈ scan source)
    (htag : segment.isTag = true) : ['{', '%'] <:+: source := by
  fun_induction scan source with
  | case1 => cases h
  | case2 c rest found after hfirst ih =>
    have hafter := first_isSuffix c rest
    rw [hfirst] at hafter
    rcases List.mem_cons.1 h with rfl | h
    · have hstart : (first c rest).1.isTag = true := by rwa [hfirst]
      exact (isPrefix_of_isTag hstart).isInfix
    · exact (ih h).trans (hafter.isInfix.trans (List.suffix_cons c rest).isInfix)

end Segment

namespace Token

open Segment

/-!
### Tokens
-/

/-- The segment gives its tokens wherever it stands. -/
def IsLexed (segment : Segment) : Prop :=
  ∀ size afterDash later, ∃ tokens, ofSegment size afterDash later segment = .ok tokens

/-- No content of a block tag is refused for its end. -/
theorem ofBlock_ne_unclosedTag (content : Text) (n : Nat) :
    ofBlock content ≠ .error (.unclosedTag n) := by
  intro h
  unfold ofBlock at h
  split at h
  · cases h
  · cases h
  · split at h <;> cases h
  · split at h <;> cases h
  · split at h <;> cases h

/-- Where a segment stands decides nothing about whether it is refused. -/
theorem isLexed_of_ofSegment {size : Nat} {afterDash : Bool} {later : List Segment}
    {segment : Segment} {tokens : List Token}
    (h : ofSegment size afterDash later segment = .ok tokens) : IsLexed segment := by
  cases segment with
  | raw value => exact fun _ _ _ => ⟨_, rfl⟩
  | comment dashes => exact fun _ _ _ => ⟨_, rfl⟩
  | interpolation dashes content => exact fun _ _ _ => ⟨_, rfl⟩
  | block dashes content => exact fun _ _ _ => ⟨_, h⟩
  | unclosed t => cases h

/-- Segments that give their tokens each give them together. -/
theorem exists_ofSegments {segments : List Segment} (h : ∀ s ∈ segments, IsLexed s) (size : Nat)
    (afterDash : Bool) : ∃ tokens, ofSegments size afterDash segments = .ok tokens := by
  induction segments generalizing afterDash with
  | nil => exact ⟨[], rfl⟩
  | cons segment later ih =>
    obtain ⟨own, hown⟩ := h segment List.mem_cons_self size afterDash later
    obtain ⟨others, hothers⟩ :=
      ih (fun s hs => h s (List.mem_cons_of_mem segment hs)) segment.closesWithDash
    exact ⟨own ++ others, by rw [ofSegments, hown, hothers]; rfl⟩

/-- A refusal for a tag without an end comes from such a segment, and the segments before it
are not refused. -/
theorem exists_unclosed {size n : Nat} {afterDash : Bool} {segments : List Segment}
    (h : ofSegments size afterDash segments = .error (.unclosedTag n)) :
    ∃ before t later, segments = before ++ .unclosed t :: later ∧
      n = size - Text.byteSize t ∧ ∀ s ∈ before, IsLexed s := by
  induction segments generalizing afterDash with
  | nil => cases h
  | cons segment later ih =>
    rw [ofSegments] at h
    cases hown : ofSegment size afterDash later segment with
    | ok tokens =>
      rw [hown] at h
      cases hothers : ofSegments size segment.closesWithDash later with
      | ok others => rw [hothers] at h; cases h
      | error e =>
        rw [hothers] at h
        cases h
        obtain ⟨before, t, rest, rfl, hn, hbefore⟩ := ih hothers
        refine ⟨segment :: before, t, rest, rfl, hn, fun s hs => ?_⟩
        rcases List.mem_cons.1 hs with rfl | hs
        · exact isLexed_of_ofSegment hown
        · exact hbefore s hs
    | error e =>
      rw [hown] at h
      cases h
      cases segment with
      | raw value => cases hown
      | comment dashes => cases hown
      | interpolation dashes content => cases hown
      | block dashes content =>
        have hblock : (ofBlock content).map ([·]) = .error (.unclosedTag n) := hown
        cases hcontent : ofBlock content with
        | ok token => rw [hcontent] at hblock; cases hblock
        | error e =>
          rw [hcontent] at hblock
          cases hblock
          exact absurd hcontent (ofBlock_ne_unclosedTag content n)
      | unclosed t =>
        cases hown
        exact ⟨[], t, later, rfl, rfl, fun s hs => absurd hs List.not_mem_nil⟩

/-!
### Output
-/

/-- The segment of text that is put out, with no part in the structure of the template. -/
theorem exists_derives_ofSegment {segment : Segment} (h : segment.isTag = false) (size : Nat)
    (afterDash : Bool) (later : List Segment) :
    ∃ tokens nodes, ofSegment size afterDash later segment = .ok tokens ∧
      Grammar.Derives tokens nodes := by
  cases segment with
  | raw value => exact ⟨_, _, rfl, (Grammar.DerivesNode.text _ _).single⟩
  | comment dashes => exact ⟨_, _, rfl, .nil⟩
  | interpolation dashes content =>
    have hnode : ∃ node,
        Grammar.DerivesNode [ofInterpolation ⟨dashes.opening, dashes.closing⟩ content] node := by
      unfold ofInterpolation
      split
      · exact ⟨_, .raise _⟩
      · split
        · exact ⟨_, .text _ _⟩
        · exact ⟨_, .interpolation _ _⟩
    obtain ⟨node, hnode⟩ := hnode
    exact ⟨_, _, rfl, hnode.single⟩
  | block dashes content => cases h
  | unclosed t => cases h

/-- Segments that are not tags make up a template. -/
theorem exists_derives_ofSegments {segments : List Segment}
    (h : ∀ s ∈ segments, s.isTag = false) (size : Nat) (afterDash : Bool) :
    ∃ tokens nodes, ofSegments size afterDash segments = .ok tokens ∧
      Grammar.Derives tokens nodes := by
  induction segments generalizing afterDash with
  | nil => exact ⟨[], [], rfl, .nil⟩
  | cons segment later ih =>
    obtain ⟨own, ownNodes, hown, hderives⟩ :=
      exists_derives_ofSegment (h segment List.mem_cons_self) size afterDash later
    obtain ⟨others, otherNodes, hothers, hlater⟩ :=
      ih (fun s hs => h s (List.mem_cons_of_mem segment hs)) segment.closesWithDash
    exact ⟨own ++ others, ownNodes ++ otherNodes, by rw [ofSegments, hown, hothers]; rfl,
      hderives.append hlater⟩

end Token

/-- In a block tag without an end no end mark stands at the top level. -/
theorem Segment.isTop_of_isOpenTag {inside : Text} (h : Segment.IsOpenTag ('{' :: '%' :: inside))
    {x y : Text} (hx : inside = x ++ '%' :: '}' :: y) :
    (Nesting.State.start.run x).isTop '%' = false := by
  obtain ⟨_, he, hnone⟩ := h
  obtain rfl := (List.cons.inj (List.cons.inj he).2).2
  unfold Segment.openDash at hnone
  rw [Nesting.breakAt] at hnone
  split at hnone
  next rest =>
    -- The dash behind the start of the tag leaves the scan where it is.
    cases x with
    | nil => exact absurd (List.cons.inj hx).1 (by decide)
    | cons d x =>
      obtain ⟨rfl, rfl⟩ := List.cons.inj hx
      have htop : (Nesting.State.start.run x).isTop '%' = false :=
        Nesting.State.isTop_of_breakAt_eq_none hnone
      exact htop
  next =>
    rw [hx] at hnone
    exact Nesting.State.isTop_of_breakAt_eq_none hnone

/-- **Where a source cannot be lexed.** Without a block tag a source always makes up a template,
whatever quotes, brackets and marks without an end stand in it. If a source is refused for a tag
without an end at some byte, then a tag starts there, no end mark stands at the top level behind
its start, and what stands before it is a source that can be lexed. -/
theorem lexing_failure_located (source : Text) :
    (¬ ['{', '%'] <:+: source →
      (∃ tokens, Token.ofSource source = .ok tokens) ∧
        ∃ template, Template.ofSource source = .ok template) ∧
    ∀ n, Token.ofSource source = .error (.unclosedTag n) →
      ∃ before inside, source = before ++ '{' :: '%' :: inside ∧ Text.byteSize before = n ∧
        (∀ x y, inside = x ++ '%' :: '}' :: y →
          (Nesting.State.start.run x).isTop '%' = false) ∧
        ∃ tokens, Token.ofSource before = .ok tokens := by
  constructor
  · intro h
    have hplain : ∀ s ∈ Segment.scan source, s.isTag = false := fun s hs =>
      Bool.eq_false_iff.2 fun htag => h (Segment.isInfix_of_isTag hs htag)
    obtain ⟨tokens, nodes, htokens, hderives⟩ :=
      Token.exists_derives_ofSegments hplain (Text.byteSize source) false
    have htemplate : Template.ofSource source = .ok nodes := by
      rw [Template.ofSource, Token.ofSource, htokens]
      exact Assembly.ofTokens_of_derives hderives
    exact ⟨⟨tokens, htokens⟩, nodes, htemplate⟩
  · intro n h
    obtain ⟨segments, t, later, hscan, hn, hlexed⟩ := Token.exists_unclosed h
    obtain ⟨hopen, before, rfl, hbefore, -⟩ := Segment.scan_before hscan
    obtain ⟨inside, rfl, hnone⟩ := hopen
    have hsize : Text.byteSize before = n := by
      rw [hn, Text.byteSize_append]
      omega
    obtain ⟨tokens, htokens⟩ := Token.exists_ofSegments hlexed (Text.byteSize before) false
    refine ⟨before, inside, rfl, hsize,
      fun x y hx => Segment.isTop_of_isOpenTag ⟨inside, rfl, hnone⟩ hx, tokens, ?_⟩
    rw [Token.ofSource, hbefore, htokens]

/-- An interpolation behind a stray quote, one without an end, and a tag whose end stands in a
literal. -/
theorem lexing_failure_located_of_stray_quotes :
    let plain := "a \x7b\x7b 'b \x7d\x7d [ \x7b\x7b c \x7b# d".toList
    let tag := "\x7b%- if '%\x7d' ( %\x7d".toList
    let broken := "e \x7b\x7b ' \x7d\x7d".toList ++ tag
    ((∃ tokens, Token.ofSource plain = .ok tokens) ∧
        ∃ template, Template.ofSource plain = .ok template) ∧
      Token.ofSource broken = .error (.unclosedTag 9) ∧
      ∃ before inside, broken = before ++ '{' :: '%' :: inside ∧ Text.byteSize before = 9 ∧
        (∀ x y, inside = x ++ '%' :: '}' :: y →
          (Nesting.State.start.run x).isTop '%' = false) ∧
        ∃ tokens, Token.ofSource before = .ok tokens := by
  intro plain tag broken
  have hinside : Segment.scan ("\x7b\x7b ' \x7d\x7d".toList ++ tag) =
      .interpolation ⟨false, false⟩ ['\''] :: Segment.scan tag := Segment.scan_cons rfl
  have hraw : Segment.scan broken =
      .raw "e ".toList :: Segment.scan ("\x7b\x7b ' \x7d\x7d".toList ++ tag) :=
    Segment.scan_cons rfl
  have htag : Segment.scan tag = .unclosed tag :: Segment.scan [] := Segment.scan_cons rfl
  have hrefused : Token.ofSource broken = .error (.unclosedTag 9) := by
    rw [Token.ofSource, hraw, hinside, htag, Segment.scan]
    decide
  exact ⟨(lexing_failure_located plain).1 (by decide), hrefused,
    (lexing_failure_located broken).2 9 hrefused⟩

end PromptTemplate
