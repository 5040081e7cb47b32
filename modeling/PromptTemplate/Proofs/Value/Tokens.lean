import PromptTemplate.Proofs.Json.Tokens
import PromptTemplate.Proofs.Number.Exact
import PromptTemplate.Value.Json

/-!
# Tokens of a value

The JSON text of a value has the same tokens whatever the space that a layout puts
between them, if the numbers of the value are integers of moderate size. They are
found from the end of the text: what a level begins with is read last, once the
tokens behind it are known.
-/

namespace PromptTemplate

namespace Value

/-!
### Plain values
-/

mutual

/-- Every number is an integer of moderate size, and the keys of each map are different. -/
def isPlain : Value → Bool
  | .number x => x.exactInt?.isSome
  | .list items => arePlain items
  | .map entries => decide (Dict.keys entries).Nodup && arePlainEntries entries
  | _ => true

/-- Every item is plain. -/
def arePlain : List Value → Bool
  | [] => true
  | x :: xs => isPlain x && arePlain xs

/-- The value of every entry is plain. -/
def arePlainEntries : List (Text × Value) → Bool
  | [] => true
  | (_, x) :: entries => isPlain x && arePlainEntries entries

end

/-!
### Tokens
-/

mutual

/-- The tokens of the JSON texts of a value. -/
def tokens : Value → List Json.Token
  | .string s => [.string s]
  | .number x => [.atom (numberToJson x)]
  | .bool b => [.atom (.bool b)]
  | .null => [.atom .null]
  | .list [] => [.openArray, .closeArray]
  | .list (x :: xs) => .openArray :: tokens x ++ tokensItems xs ++ [.closeArray]
  | .map [] => [.openObject, .closeObject]
  | .map ((key, x) :: entries) =>
    .openObject :: .string key :: .colon :: tokens x ++ tokensEntries entries ++ [.closeObject]

/-- The tokens of the items behind the first. -/
def tokensItems : List Value → List Json.Token
  | [] => []
  | x :: xs => .comma :: tokens x ++ tokensItems xs

/-- The tokens of the entries behind the first. -/
def tokensEntries : List (Text × Value) → List Json.Token
  | [] => []
  | (key, x) :: entries => .comma :: .string key :: .colon :: tokens x ++ tokensEntries entries

end

/-- The text of a number is either text of its document, also if it is not finite. -/
theorem writeNumber_eq (x : Number) : writeNumber x = (numberToJson x).compact ∧
    ∀ width level, writeNumber x = (numberToJson x).indented width level := by
  unfold writeNumber numberToJson
  cases x.exactInt? with
  | some n => exact ⟨rfl, fun _ _ => rfl⟩
  | none => cases x <;> exact ⟨rfl, fun _ _ => rfl⟩

section

open Json Json.Token

variable {t : Text} {ts : List Json.Token}

/-- A name with its colon and space in front of the text of a value. -/
theorem lex_name {u : Text} (hu : ∀ c ∈ u, isSpace c = true) (key : Text) (h : lex t = some ts) :
    lex (Quoted.write key ++ ':' :: (u ++ t)) = some (.string key :: .colon :: ts) :=
  lex_write key (lex_token rfl rfl ((lex_spaces hu t).trans h))

/-- An integer of moderate size fits a machine word. -/
theorem isWord_of_exactInt? {x : Number} {n : Int} (h : x.exactInt? = some n) :
    Text.isWord n = true := by
  have hbound : n.natAbs < 9000000000000000 := (Number.exists_of_exactInt? h).1
  rw [Text.isWord, Bool.and_eq_true, decide_eq_true_eq, decide_eq_true_eq]
  omega

/-- The text of a plain number. -/
theorem lex_writeNumber {x : Number} (hx : x.exactInt?.isSome = true) (ht : Follows t)
    (h : lex t = some ts) :
    lex (writeNumber x ++ t) = some (.atom (numberToJson x) :: ts) := by
  obtain ⟨n, hn⟩ := Option.isSome_iff_exists.1 hx
  simp only [writeNumber, numberToJson, hn]
  exact lex_ofInt (isWord_of_exactInt? hn) ht h

end

/-!
### Layouts
-/

open Json Json.Token in
/-- A way to write values as JSON: the text of a value on a level, and of the items and entries
behind the first. Two layouts differ in the space that they put between tokens. -/
structure Layout where
  text : Nat → Value → Text
  items : Nat → List Value → Text
  entries : Nat → List (Text × Value) → Text
  /-- What stands on a level before an item, an entry and the closing mark. -/
  line : Nat → Text
  /-- What stands behind a colon. -/
  gap : Text
  line_space : ∀ level, ∀ c ∈ line level, isSpace c = true
  gap_space : ∀ c ∈ gap, isSpace c = true
  text_string : ∀ level s, text level (.string s) = Quoted.write s
  text_number : ∀ level x, text level (.number x) = writeNumber x
  text_bool : ∀ level b, text level (.bool b) = writeBool b
  text_null : ∀ level, text level .null = "null".toList
  text_list_nil : ∀ level, text level (.list []) = ['[', ']']
  text_list_cons : ∀ level x xs, text level (.list (x :: xs)) =
    '[' :: (line (level + 1) ++ (text (level + 1) x ++ (items (level + 1) xs ++
      (line level ++ [']']))))
  text_map_nil : ∀ level, text level (.map []) = ['{', '}']
  text_map_cons : ∀ level key x es, text level (.map ((key, x) :: es)) =
    '{' :: (line (level + 1) ++ (Quoted.write key ++ ':' :: (gap ++ (text (level + 1) x ++
      (entries (level + 1) es ++ (line level ++ ['}']))))))
  items_nil : ∀ level, items level [] = []
  items_cons : ∀ level x xs, items level (x :: xs) =
    ',' :: (line level ++ (text level x ++ items level xs))
  entries_nil : ∀ level, entries level [] = []
  entries_cons : ∀ level key x es, entries level ((key, x) :: es) =
    ',' :: (line level ++ (Quoted.write key ++ ':' :: (gap ++ (text level x ++ entries level es))))

/-- Every item and every entry on a line of its own. -/
def Layout.lines (width : Nat) : Layout where
  text := indented width
  items := indentedItems width
  entries := indentedEntries width
  line := Json.lineStart width
  gap := [' ']
  line_space _ _ h := Json.Token.isSpace_of_mem_lineStart h
  gap_space := List.forall_mem_singleton.2 rfl
  text_string _ _ := by rw [indented]
  text_number _ _ := by rw [indented]
  text_bool _ _ := by rw [indented]
  text_null _ := by rw [indented]
  text_list_nil _ := by rw [indented]
  text_list_cons _ _ _ := by simp only [indented, List.cons_append, List.append_assoc]
  text_map_nil _ := by rw [indented]
  text_map_cons _ _ _ _ := by
    simp only [indented, List.cons_append, List.append_assoc, List.nil_append]
  items_nil _ := by rw [indentedItems]
  items_cons _ _ _ := by simp only [indentedItems, List.cons_append, List.append_assoc]
  entries_nil _ := by rw [indentedEntries]
  entries_cons _ _ _ _ := by
    simp only [indentedEntries, List.cons_append, List.append_assoc, List.nil_append]

@[simp] theorem Layout.text_lines (width level : Nat) (v : Value) :
    (lines width).text level v = v.indented width level := rfl

/-- No space at all: the text of the document. -/
def Layout.tight : Layout where
  text _ v := v.toJson.compact
  items _ xs := Json.compactItems (toJsonItems xs)
  entries _ es := Json.compactMembers (toJsonMembers es)
  line _ := []
  gap := []
  line_space _ _ h := absurd h List.not_mem_nil
  gap_space _ h := absurd h List.not_mem_nil
  text_string _ _ := by rw [toJson, Json.compact]
  text_number _ x := (writeNumber_eq x).1.symm
  text_bool _ _ := by rw [toJson, Json.compact]
  text_null _ := by rw [toJson, Json.compact]
  text_list_nil _ := by rw [toJson, toJsonItems, Json.compact]
  text_list_cons _ _ _ := by
    simp only [toJson, toJsonItems, Json.compact, List.cons_append, List.append_assoc,
      List.nil_append]
  text_map_nil _ := by rw [toJson, toJsonMembers, Json.compact]
  text_map_cons _ _ _ _ := by
    simp only [toJson, toJsonMembers, Json.compact, List.cons_append, List.append_assoc,
      List.nil_append]
  items_nil _ := by rw [toJsonItems, Json.compactItems]
  items_cons _ _ _ := by
    simp only [toJsonItems, Json.compactItems, List.cons_append, List.nil_append]
  entries_nil _ := by rw [toJsonMembers, Json.compactMembers]
  entries_cons _ _ _ _ := by
    simp only [toJsonMembers, Json.compactMembers, List.cons_append, List.append_assoc,
      List.nil_append]

@[simp] theorem Layout.text_tight (level : Nat) (v : Value) :
    tight.text level v = v.toJson.compact := rfl

namespace Layout

open Json Json.Token

variable (l : Layout) {t : Text} {ts : List Json.Token}

/-- No numeral goes on at the items behind the first. -/
theorem follows_items (level : Nat) (xs : List Value) (ht : Follows t) :
    Follows (l.items level xs ++ t) := by
  cases xs with
  | nil =>
    rw [l.items_nil]
    exact ht
  | cons x xs =>
    rw [l.items_cons]
    intro c hc
    cases hc
    rfl

/-- No numeral goes on at the entries behind the first. -/
theorem follows_entries (level : Nat) (es : List (Text × Value)) (ht : Follows t) :
    Follows (l.entries level es ++ t) := by
  cases es with
  | nil =>
    rw [l.entries_nil]
    exact ht
  | cons e es =>
    rw [l.entries_cons]
    intro c hc
    cases hc
    rfl

/-- A mark with the space of a level in front of it. -/
theorem lex_line {c : Char} {token : Json.Token} (hc : isSpace c = false)
    (hpart : Numeral.isPart c = false) (hread : read? c t = some (token, t))
    (h : lex t = some ts) (level : Nat) :
    Follows (l.line level ++ c :: t) ∧ lex (l.line level ++ c :: t) = some (token :: ts) := by
  have hfollows : Follows (c :: t) := by
    intro d hd
    cases hd
    exact hpart
  exact ⟨follows_spaces (l.line_space level) hfollows,
    (lex_spaces (l.line_space level) _).trans (lex_token hc hread h)⟩

/-- A mark with the space of a level behind it. -/
theorem lex_before_line {c : Char} {token : Json.Token} (hc : isSpace c = false) (level : Nat)
    (hread : read? c (l.line level ++ t) = some (token, l.line level ++ t))
    (h : lex t = some ts) : lex (c :: (l.line level ++ t)) = some (token :: ts) :=
  lex_token hc hread ((lex_spaces (l.line_space level) t).trans h)

mutual

/-- The text of a plain value has the tokens of the value: by induction on the value, each level
read from its end, as it matters for a numeral what follows. -/
theorem lex_text (level : Nat) (v : Value) (hv : v.isPlain = true) {t : Text}
    {ts : List Json.Token} (ht : Follows t) (h : lex t = some ts) :
    lex (l.text level v ++ t) = some (v.tokens ++ ts) := by
  match v with
  | .string s =>
    rw [l.text_string]
    exact lex_write s h
  | .number x =>
    rw [l.text_number]
    exact lex_writeNumber hv ht h
  | .bool true =>
    rw [l.text_bool]
    exact lex_token rfl rfl h
  | .bool false =>
    rw [l.text_bool]
    exact lex_token rfl rfl h
  | .null =>
    rw [l.text_null]
    exact lex_token rfl rfl h
  | .list [] =>
    rw [l.text_list_nil]
    exact lex_token rfl rfl (lex_token rfl rfl h)
  | .list (x :: xs) =>
    obtain ⟨hx, hxs⟩ := Bool.and_eq_true_iff.1 hv
    obtain ⟨hfollows, hclose⟩ := l.lex_line (by decide : isSpace ']' = false) rfl rfl h level
    have hitems := lex_items (level + 1) xs hxs hfollows hclose
    have hfirst := lex_text (level + 1) x hx (l.follows_items (level + 1) xs hfollows) hitems
    have hopen := l.lex_before_line (by decide : isSpace '[' = false) (level + 1) rfl hfirst
    rw [l.text_list_cons]
    simpa only [tokens, List.cons_append, List.append_assoc, List.nil_append] using hopen
  | .map [] =>
    rw [l.text_map_nil]
    exact lex_token rfl rfl (lex_token rfl rfl h)
  | .map ((key, x) :: es) =>
    obtain ⟨-, hplain⟩ := Bool.and_eq_true_iff.1 hv
    obtain ⟨hx, hes⟩ := Bool.and_eq_true_iff.1 hplain
    obtain ⟨hfollows, hclose⟩ := l.lex_line (by decide : isSpace '}' = false) rfl rfl h level
    have hrest := lex_entries (level + 1) es hes hfollows hclose
    have hfirst := lex_name l.gap_space key
      (lex_text (level + 1) x hx (l.follows_entries (level + 1) es hfollows) hrest)
    have hopen := l.lex_before_line (by decide : isSpace '{' = false) (level + 1) rfl hfirst
    rw [l.text_map_cons]
    simpa only [tokens, List.cons_append, List.append_assoc, List.nil_append] using hopen

/-- The items behind the first. -/
theorem lex_items (level : Nat) (xs : List Value) (hxs : arePlain xs = true) {t : Text}
    {ts : List Json.Token} (ht : Follows t) (h : lex t = some ts) :
    lex (l.items level xs ++ t) = some (tokensItems xs ++ ts) := by
  match xs with
  | [] =>
    rw [l.items_nil]
    exact h
  | x :: xs =>
    obtain ⟨hx, hxs⟩ := Bool.and_eq_true_iff.1 hxs
    have hitems := lex_items level xs hxs ht h
    have hfirst := lex_text level x hx (l.follows_items level xs ht) hitems
    have hcomma := l.lex_before_line (by decide : isSpace ',' = false) level rfl hfirst
    rw [l.items_cons]
    simpa only [tokensItems, List.cons_append, List.append_assoc] using hcomma

/-- The entries behind the first. -/
theorem lex_entries (level : Nat) (es : List (Text × Value)) (hes : arePlainEntries es = true)
    {t : Text} {ts : List Json.Token} (ht : Follows t) (h : lex t = some ts) :
    lex (l.entries level es ++ t) = some (tokensEntries es ++ ts) := by
  match es with
  | [] =>
    rw [l.entries_nil]
    exact h
  | (key, x) :: es =>
    obtain ⟨hx, hes⟩ := Bool.and_eq_true_iff.1 hes
    have hrest := lex_entries level es hes ht h
    have hfirst := lex_name l.gap_space key
      (lex_text level x hx (l.follows_entries level es ht) hrest)
    have hcomma := l.lex_before_line (by decide : isSpace ',' = false) level rfl hfirst
    rw [l.entries_cons]
    simpa only [tokensEntries, List.cons_append, List.append_assoc] using hcomma

end

end Layout

end Value

end PromptTemplate
