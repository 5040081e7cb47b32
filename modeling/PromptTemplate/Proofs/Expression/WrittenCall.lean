import PromptTemplate.Proofs.Dict
import PromptTemplate.Proofs.Expression.Pipe
import PromptTemplate.Proofs.Expression.WrittenPath

/-!
# Calls as they are written

Between the parentheses of a call stand arguments with commas between them. What
an argument hides in literals and groups, be it a comma, an equals sign, a bar or
a membership, belongs to the argument, so a call is read back with the arguments
that were written. Its handler gets the values of those without a name in order,
and each name where it stands first with the value of its last argument.
-/

namespace PromptTemplate

open Nesting

/-!
### What arguments deliver
-/

section

variable {ε : Type}

/-- The value of an argument without a name. -/
def Argument.item? (value : ε → Value) : Argument ε → Option Value
  | .positional operand => some (value operand)
  | .keyword _ _ => none

/-- The name of an argument and its value, if it has a name. -/
def Argument.entry? (value : ε → Value) : Argument ε → Option (Text × Value)
  | .positional _ => none
  | .keyword name operand => some (name, value operand)

/-- What arguments deliver: the values of those without a name in order, and each name at the
place of its first argument, with the value of its last. -/
def delivered (value : ε → Value) (arguments : List (Argument ε)) : Arguments :=
  let entries := arguments.filterMap (Argument.entry? value)
  { positional := arguments.filterMap (Argument.item? value)
    keyword := (entries.map Prod.fst).eraseDups.filterMap fun name =>
      (entries.reverse.lookup name).map fun v => (name, v) }

/-- The arguments of a call are evaluated to what they deliver. -/
theorem Call.eval_eq_delivered (value : ε → Value) (c : Call ε) :
    c.eval value = delivered value c.arguments := by
  obtain ⟨name, arguments⟩ := c
  have hfold : Call.eval value ⟨name, arguments⟩ =
      ⟨arguments.filterMap (Argument.item? value),
        Dict.ofEntries (arguments.filterMap (Argument.entry? value))⟩ := by
    induction arguments using List.reverseRecOn with
    | nil => rfl
    | append_singleton arguments a ih =>
      rw [Call.eval] at ih
      rw [Call.eval, List.foldl_concat, ih, List.filterMap_append, List.filterMap_append]
      cases a with
      | positional operand =>
        have hentries : [Argument.positional operand].filterMap (Argument.entry? value) = [] := rfl
        rw [hentries, List.append_nil]
        rfl
      | keyword name operand =>
        have hitems : [Argument.keyword name operand].filterMap (Argument.item? value) = [] := rfl
        have hentries : [Argument.keyword name operand].filterMap (Argument.entry? value) =
            [(name, value operand)] := rfl
        rw [hitems, hentries, List.append_nil, Dict.ofEntries_concat]
  rw [hfold, Dict.ofEntries_eq]
  rfl

end

/-!
### Reading an argument
-/

namespace Argument

/-- An argument has a name if it begins with one, with blanks around it and an equals sign
behind it that is not followed by another. -/
theorem ofText_eq_keyword_iff {t name operand : Text} :
    ofText t = .keyword name operand ↔
      ∃ start, t = start ++ '=' :: operand ∧ Text.trim start = name ∧
        Text.isIdentifier name = true ∧ operand.head? ≠ some '=' := by
  constructor
  · intro h
    unfold ofText at h
    split at h
    · next start rest hbreak =>
      split at h
      · next hname =>
        obtain ⟨rfl, rfl⟩ := Argument.keyword.inj h
        refine ⟨start, ?_, rfl, hname⟩
        rw [eq_of_breakAt hbreak, List.append_assoc]
        rfl
      · cases h
    · cases h
  · rintro ⟨start, rfl, rfl, hname, hsign⟩
    obtain ⟨before, after, hbefore, hafter, hstart⟩ := Text.exists_trim start
    have hchar : ∀ c ∈ start, Text.isBlank c = true ∨ Text.isNameChar c = true := by
      intro c hc
      rw [hstart] at hc
      rcases List.mem_append.1 hc with hc | hc
      · exact .inl (hbefore c hc)
      rcases List.mem_append.1 hc with hc | hc
      · exact .inr (Text.isNameChar_of_isIdentifier hname c hc)
      · exact .inl (hafter c hc)
    obtain ⟨hbalanced, hvisible⟩ := scan_neutral (w := start) fun c hc =>
      (hchar c hc).elim nesting_of_isBlank fun h => nesting_of_isPlain (isPlain_of_isNameChar h)
    have hequals : '=' ∉ State.start.visible start := by
      rw [hvisible]
      exact fun hc => absurd (hchar _ hc) (by decide)
    have hbreak : breakAt ['='] (start ++ '=' :: operand) = some (start, operand) := by
      have hfound : State.start.breakAt ['='] ('=' :: operand) = some ([], operand) :=
        breakAt_start '=' [] operand
      rw [breakAt, State.breakAt_append hequals, State.run_of_closes hbalanced, hfound,
        Option.map_some, List.append_nil]
    rw [ofText, hbreak]
    exact if_pos ⟨hname, hsign⟩

/-- An argument without the blanks at its ends. -/
def trimmed : Argument Text → Argument Text
  | .positional operand => .positional (Text.trim operand)
  | .keyword name operand => .keyword name (Text.trimEnd operand)

/-- What has no name has none without the blanks at its ends either. -/
theorem ofText_trim_of_positional {t : Text} (h : ofText t = .positional t) :
    ofText (Text.trim t) = .positional (Text.trim t) := by
  cases hread : ofText (Text.trim t) with
  | positional operand =>
    unfold ofText at hread
    split at hread
    · split at hread
      · cases hread
      · exact hread.symm
    · exact hread.symm
  | keyword name operand =>
    -- The name would also be read with the blanks around it.
    obtain ⟨start, htrim, rfl, hname, hsign⟩ := ofText_eq_keyword_iff.1 hread
    obtain ⟨before, after, hbefore, hafter, ht⟩ := Text.exists_trim t
    have hkeyword : ofText t = .keyword (Text.trim start) (operand ++ after) := by
      refine ofText_eq_keyword_iff.2 ⟨before ++ start, ?_, Text.trim_blanks_append hbefore start,
        hname, ?_⟩
      · rw [ht, htrim]
        simp only [List.append_assoc, List.cons_append]
      · cases operand with
        | nil =>
          intro hhead
          exact absurd (hafter _ (List.mem_of_mem_head? hhead)) (by decide)
        | cons c operand => exact hsign
    rw [h] at hkeyword
    cases hkeyword

/-- A name and a text behind an equals sign are a keyword argument. -/
theorem ofText_trim_of_keyword {name operand : Text} (hname : Text.isIdentifier name = true)
    (hsign : operand.head? ≠ some '=') :
    ofText (Text.trim (name ++ '=' :: operand)) = .keyword name (Text.trimEnd operand) := by
  have htrim : Text.trim name = name := (PathText.root hname).trim_eq
  rw [Text.trim_append_cons (by decide : Text.isBlank '=' = false), Text.trimStart_eq_self htrim]
  refine ofText_eq_keyword_iff.2 ⟨name, rfl, htrim, hname, ?_⟩
  obtain ⟨after, -, hend⟩ := Text.exists_trimEnd operand
  intro hhead
  rw [hend] at hsign
  cases hkept : Text.trimEnd operand with
  | nil =>
    rw [hkept] at hhead
    cases hhead
  | cons c kept =>
    rw [hkept] at hhead hsign
    exact hsign hhead

/-- The blanks at the ends of arguments do not matter to what they deliver. -/
theorem delivered_trimmed (s : Scope) (arguments : List (Argument Text)) :
    delivered (evaluate s) (arguments.map trimmed) = delivered (evaluate s) arguments := by
  have hitem : item? (evaluate s) ∘ trimmed = item? (evaluate s) := by
    funext a
    cases a with
    | positional operand => exact congrArg some (evaluate_congr_trim (Text.trim_trim operand) s)
    | keyword name operand => rfl
  have hentry : entry? (evaluate s) ∘ trimmed = entry? (evaluate s) := by
    funext a
    cases a with
    | positional operand => rfl
    | keyword name operand =>
      have hvalue := evaluate_congr_trim (Text.trim_trimEnd operand) s
      exact congrArg (fun v => some (name, v)) hvalue
  rw [delivered, List.filterMap_map, List.filterMap_map, hitem, hentry]
  rfl

end Argument

/-!
### Written arguments
-/

/-- An argument as it is written, with nothing open at its end and no comma outside literals
and groups. Without a name it is not blank and not read as one with a name; the value of a name
may be blank, but it does not begin with a second equals sign. -/
inductive WrittenArgument where
  | positional (operand : Text) (balanced : isBalanced operand = true)
      (noComma : ',' ∉ State.start.visible operand) (notBlank : Text.trim operand ≠ [])
      (noName : Argument.ofText operand = .positional operand)
  | keyword (name operand : Text) (isName : Text.isIdentifier name = true)
      (balanced : isBalanced operand = true) (noComma : ',' ∉ State.start.visible operand)
      (noSign : operand.head? ≠ some '=')

namespace WrittenArgument

/-- The text of an argument. -/
def text : WrittenArgument → Text
  | positional operand _ _ _ _ => operand
  | keyword name operand _ _ _ _ => name ++ '=' :: operand

/-- The argument that is written. -/
def argument : WrittenArgument → Argument Text
  | positional operand _ _ _ _ => .positional operand
  | keyword name operand _ _ _ _ => .keyword name operand

/-- The text of an argument leaves nothing open and shows no comma. -/
theorem balanced_text (w : WrittenArgument) :
    isBalanced w.text = true ∧ ',' ∉ State.start.visible w.text := by
  cases w with
  | positional operand hbalanced hcomma hblank hname => exact ⟨hbalanced, hcomma⟩
  | keyword name operand hname hbalanced hcomma hsign =>
    have hchar := Text.isNameChar_of_isIdentifier hname
    obtain ⟨hword, hvisible⟩ := scan_plain fun c hc => isPlain_of_isNameChar (hchar c hc)
    have hvalue : isBalanced ('=' :: operand) = true := hbalanced
    refine ⟨isBalanced_append hword hvalue, ?_⟩
    rw [text, State.visible_append, hvisible, State.run_of_closes hword, List.mem_append, not_or]
    refine ⟨fun hc => absurd (hchar _ hc) (by decide), ?_⟩
    rw [State.visible_cons_of_top (isTop_start '='), List.mem_cons, not_or]
    exact ⟨by decide, hcomma⟩

/-- The text of an argument is not blank. -/
theorem trim_text_ne_nil (w : WrittenArgument) : Text.trim w.text ≠ [] := by
  cases w with
  | positional operand hbalanced hcomma hblank hname => exact hblank
  | keyword name operand hname hbalanced hcomma hsign =>
    rw [text, Text.trim_append_cons (by decide : Text.isBlank '=' = false)]
    exact List.append_ne_nil_of_right_ne_nil _ (List.cons_ne_nil _ _)

/-- The text of an argument is read back as the argument. -/
theorem ofText_trim_text (w : WrittenArgument) :
    Argument.ofText (Text.trim w.text) = w.argument.trimmed := by
  cases w with
  | positional operand hbalanced hcomma hblank hname =>
    exact Argument.ofText_trim_of_positional hname
  | keyword name operand hname hbalanced hcomma hsign =>
    exact Argument.ofText_trim_of_keyword hname hsign

end WrittenArgument

/-!
### Arguments with commas between them
-/

/-- A blank at the start belongs to the first part. -/
theorem Nesting.map_trim_split_cons_blank (t : Text) :
    (split ',' (' ' :: t)).map Text.trim = (split ',' t).map Text.trim := by
  have hblank : split ',' (' ' :: t) = (split ',' t).modifyHead (' ' :: ·) := rfl
  rw [hblank]
  cases split ',' t with
  | nil => rfl
  | cons p ps =>
    rw [List.modifyHead_cons, List.map_cons, List.map_cons,
      Text.trim_cons_of_blank (by decide : Text.isBlank ' ' = true)]

/-- Between commas with a blank behind each the parts are found again, up to that blank. -/
theorem Nesting.map_trim_split_intercalate {ts : List Text} (hne : ts ≠ [])
    (h : ∀ t ∈ ts, isBalanced t = true ∧ ',' ∉ State.start.visible t) :
    (split ',' (", ".toList.intercalate ts)).map Text.trim = ts.map Text.trim := by
  induction ts with
  | nil => exact absurd rfl hne
  | cons t ts ih =>
    obtain ⟨⟨hbalanced, hcomma⟩, hts⟩ := List.forall_mem_cons.1 h
    have hfirst : split ',' t = [t] := State.split_eq_singleton hcomma
    cases ts with
    | nil => rw [List.intercalate_singleton, hfirst]
    | cons u ts =>
      have hcut : split ',' (", ".toList.intercalate (t :: u :: ts)) =
          [t] ++ split ',' (' ' :: ", ".toList.intercalate (u :: ts)) := by
        rw [List.intercalate_cons_cons, List.append_assoc, ← hfirst]
        exact State.split_append rfl (State.run_of_closes hbalanced) _
      rw [hcut, List.map_append, map_trim_split_cons_blank, ih (List.cons_ne_nil u ts) hts]
      rfl

/-- The texts of arguments with a comma and a blank between them. -/
def argumentsText (args : List WrittenArgument) : Text :=
  ", ".toList.intercalate (args.map WrittenArgument.text)

/-- Written arguments leave nothing open. -/
theorem isBalanced_argumentsText (args : List WrittenArgument) :
    isBalanced (argumentsText args) = true := by
  refine isBalanced_intercalate (by decide) fun t ht => ?_
  obtain ⟨w, -, rfl⟩ := List.mem_map.1 ht
  exact w.balanced_text.1

/-- Written arguments are read back one by one. -/
theorem Call.readArguments_argumentsText (args : List WrittenArgument) :
    readArguments (argumentsText args) =
      args.map fun w => w.argument.trimmed := by
  cases args with
  | nil => rfl
  | cons w args =>
    have hblank : Text.trim (argumentsText (w :: args)) ≠ [] := by
      intro hnil
      refine w.trim_text_ne_nil (Text.trim_eq_nil_iff.2 fun c hc => ?_)
      refine Text.trim_eq_nil_iff.1 hnil c ?_
      cases args with
      | nil =>
        rw [argumentsText, List.map_singleton, List.intercalate_singleton]
        exact hc
      | cons v args =>
        rw [argumentsText, List.map_cons, List.map_cons, List.intercalate_cons_cons,
          List.append_assoc]
        exact List.mem_append_left _ hc
    have hparts : (split ',' (argumentsText (w :: args))).map Text.trim =
        ((w :: args).map WrittenArgument.text).map Text.trim := by
      refine map_trim_split_intercalate (List.cons_ne_nil _ _) fun t ht => ?_
      obtain ⟨v, -, rfl⟩ := List.mem_map.1 ht
      exact v.balanced_text
    have hread : ((split ',' (argumentsText (w :: args))).map Text.trim).map Argument.ofText =
        (w :: args).map fun v => v.argument.trimmed := by
      rw [hparts, List.map_map, List.map_map]
      exact List.map_congr_left fun v _ => v.ofText_trim_text
    rw [List.map_map] at hread
    rw [readArguments, if_neg hblank]
    exact hread

/-!
### Calls
-/

/-- A name with an inside in parentheses. -/
def callOf (name inside : Text) : Text := name ++ '(' :: (inside ++ [')'])

section

variable {name inside : Text}

/-- A call shows its name and its two parentheses. -/
theorem visible_callOf (hname : Text.isIdentifier name = true)
    (hinside : isBalanced inside = true) :
    State.start.visible (callOf name inside) = name ++ ['(', ')'] := by
  obtain ⟨hword, hvisible⟩ := scan_plain fun c hc =>
    isPlain_of_isNameChar (Text.isNameChar_of_isIdentifier hname c hc)
  rw [callOf, State.visible_append, hvisible, State.run_of_closes hword, visible_group hinside]

/-- A character of a call outside its group is one of its name or a parenthesis. -/
theorem char_of_mem_visible_callOf (hname : Text.isIdentifier name = true)
    (hinside : isBalanced inside = true) {c : Char}
    (hc : c ∈ State.start.visible (callOf name inside)) :
    Text.isNameChar c = true ∨ c ∈ ['(', ')'] := by
  rw [visible_callOf hname hinside] at hc
  exact (List.mem_append.1 hc).imp_left (Text.isNameChar_of_isIdentifier hname c)

/-- A call begins with its name and ends with a parenthesis. -/
theorem trim_callOf (hname : Text.isIdentifier name = true) (inside : Text) :
    Text.trim (callOf name inside) = callOf name inside := by
  obtain ⟨c, rest, rfl, hstart⟩ := (PathText.root hname).exists_cons
  have hplain := isPlain_of_isNameChar (Text.isNameChar_of_isNameStart hstart)
  have hlast : (callOf (c :: rest) inside).getLast? = some ')' := by
    rw [callOf, ← List.cons_append, ← List.append_assoc, List.getLast?_concat]
  exact Text.trim_eq_self rfl (not_blank_of_isPlain hplain) hlast (by decide)

/-- A call is read as its name and the arguments inside. -/
theorem Call.read?_callOf (hname : Text.isIdentifier name = true)
    (hinside : isBalanced inside = true) :
    read? (callOf name inside) = some ⟨name, readArguments inside⟩ := by
  have hend : ∀ c ∈ ('(' :: (inside ++ [')'])).head?, Text.isNameChar c = false :=
    fun c hc => by
      cases hc
      decide
  obtain ⟨htake, hdrop⟩ := Text.span_append (Text.isNameChar_of_isIdentifier hname) hend
  have hgroup : Text.trimStart ('(' :: (inside ++ [')'])) = '(' :: (inside ++ [')']) :=
    Text.trimStart_cons_of_not_blank (by decide) _
  simp only [read?, callOf, htake, hdrop, hname, if_true, hgroup, stripParens?_group hinside,
    Option.map_some]

/-- A stage that is a call, with blanks around it. -/
theorem Call.ofStage_callOf (hname : Text.isIdentifier name = true)
    (hinside : isBalanced inside = true) (before after : Blanks) :
    ofStage (before ++ (callOf name inside ++ after)) = ⟨name, readArguments inside⟩ := by
  rw [ofStage, Text.trim_blanks_append before.2, Text.trim_append_blanks after.2,
    trim_callOf hname, read?_callOf hname hinside, Option.getD_some]

/-- A call is read as a call: it shows nothing else that an expression is taken for. -/
theorem Form.ofText_callOf (hname : Text.isIdentifier name = true)
    (hinside : isBalanced inside = true) :
    ofText (callOf name inside) = .call ⟨name, Call.readArguments inside⟩ := by
  have hchar {c : Char} := char_of_mem_visible_callOf (c := c) hname hinside
  have hopen : '(' ∈ State.start.visible (Text.trim (callOf name inside)) := by
    rw [trim_callOf hname, visible_callOf hname hinside]
    exact List.mem_append_right _ List.mem_cons_self
  have hpipe : split '|' (callOf name inside) = [callOf name inside] :=
    State.split_eq_singleton fun hbar => absurd (hchar hbar) (by decide)
  have hmember : breakWord "in".toList (callOf name inside) = none := by
    have hsolid : ∀ c ∈ State.start.visible (callOf name inside), Text.isBlank c = false := by
      intro c hc
      rcases hchar hc with hc | hc
      · exact not_blank_of_isPlain (isPlain_of_isNameChar hc)
      · rcases List.mem_pair.1 hc with rfl | rfl <;> decide
    exact breakWord_of_solid (by decide) hsolid
  rw [ofText_of_separator (by decide) hopen, trim_callOf hname, ofCompound, hpipe]
  simp only [hmember, Call.read?_callOf hname hinside]

end

/-- Calls deliver exactly their arguments, whatever these hide in literals and groups. A function
gets the values of the arguments without a name in order, and each name at the place of its first
argument with the value of its last; so does a filter, besides the value of the balanced text
before it. -/
theorem evaluate_callOf (s : Scope) {name : Text} (hname : Text.isIdentifier name = true)
    (args : List WrittenArgument) :
    (∀ function, s.registry.functions.get? name = some function →
      evaluate s (callOf name (argumentsText args)) =
        function.handler (delivered (evaluate s) (args.map WrittenArgument.argument))) ∧
    ∀ filter, s.registry.filters.get? name = some filter → ∀ a, isBalanced a = true →
      ∀ before after : Blanks,
        evaluate s (a ++ '|' :: (before ++ (callOf name (argumentsText args) ++ after))) =
          filter.handler (evaluate s a)
            (delivered (evaluate s) (args.map WrittenArgument.argument)) := by
  have hinside := isBalanced_argumentsText args
  have harguments : Call.eval (evaluate s) ⟨name, Call.readArguments (argumentsText args)⟩ =
      delivered (evaluate s) (args.map WrittenArgument.argument) := by
    have htrimmed : Call.readArguments (argumentsText args) =
        (args.map WrittenArgument.argument).map Argument.trimmed := by
      rw [Call.readArguments_argumentsText, List.map_map]
      rfl
    rw [Call.eval_eq_delivered, htrimmed, Argument.delivered_trimmed]
  refine ⟨fun function hfunction => ?_, fun filter hfilter a ha before after => ?_⟩
  · rw [PromptTemplate.evaluate_eq, Form.ofText_callOf hname hinside, Form.eval, harguments,
      Registry.callFunction, hfunction]
    rfl
  · have hbar : '|' ∉ State.start.visible
        ((before : Text) ++ (callOf name (argumentsText args) ++ after)) := by
      simp only [State.visible_append, List.mem_append, not_or]
      refine ⟨State.not_mem_visible_blanks rfl before.2 _, ?_,
        State.not_mem_visible_blanks rfl after.2 _⟩
      rw [State.run_of_closes (isBalanced_blanks before.2)]
      exact fun hc => absurd (char_of_mem_visible_callOf hname hinside hc) (by decide)
    rw [evaluate_append_stage ha hbar, Scope.applyStage, Call.ofStage_callOf hname hinside,
      harguments, Registry.applyFilter, hfilter]

/-- Separators in literals, in a subscript and in a call inside the call, and a name that is given
twice with a blank value for another name between. -/
theorem evaluate_callOf_of_quoted_separators :
    let pack (args : Arguments) : Value := .list [.list args.positional, .map args.keyword]
    let pair (v : Value) (args : Arguments) : Value := .list [v, pack args]
    let s : Scope := ⟨[("x".toList, .map [("a,b=|".toList, .bool true)])],
      (Registry.empty.registerFunction "f".toList [] pack).registerFilter "f".toList [] pair⟩
    let args : List WrittenArgument :=
      [.positional " x['a,b=|'] ".toList (by decide) (by decide) (by decide) (by decide),
        .keyword "k".toList "none".toList rfl rfl (by decide) (by decide),
        .keyword "m".toList [] rfl rfl List.not_mem_nil (by decide),
        .positional "' in (' in ('=', \"|,\")".toList (by decide) (by decide) (by decide)
          (by decide),
        .keyword "k".toList "f('2, 3', k=')')".toList rfl (by decide) (by decide) (by decide)]
    let result : Value := .list [.list [.bool true, .bool false],
      .map [("k".toList, .list [.list [.string "2, 3".toList],
        .map [("k".toList, .string [')'])]]), ("m".toList, .null)]]
    callOf "f".toList (argumentsText args) =
        "f( x['a,b=|'] , k=none, m=, ' in (' in ('=', \"|,\"), k=f('2, 3', k=')'))".toList ∧
      evaluate s (callOf "f".toList (argumentsText args)) = result ∧
      evaluate s ("x['|'] ".toList ++ '|' ::
        (Blanks.space ++ (callOf "f".toList (argumentsText args) ++ Blanks.none))) =
          .list [.null, result] := by
  intro pack pair s args result
  have hname : Text.isIdentifier "f".toList = true := by decide
  obtain ⟨hcall, hstage⟩ := evaluate_callOf s hname args
  have hinput : isBalanced "x['|'] ".toList = true := by decide
  refine ⟨by decide +kernel, (hcall _ rfl).trans ?_,
    (hstage _ rfl _ hinput Blanks.space Blanks.none).trans ?_⟩
  · with_unfolding_all rfl
  · with_unfolding_all rfl

end PromptTemplate
