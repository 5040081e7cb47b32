import PromptTemplate.Context
import PromptTemplate.Json.Fields
import PromptTemplate.Json.Reader
import PromptTemplate.Proofs.Dict
import PromptTemplate.Proofs.Value.Tokens
import PromptTemplate.Registry.Builtin

/-!
# Decoding what was written

The JSON text of a value is read back as the document of the value, and from the
document comes an equal value with every map in its order, so the layout of the
text does not matter. The reader goes through the tokens of the value with the
containers open around it on its stack, and it allows 127 of them.
-/

namespace PromptTemplate

namespace Value

/-!
### Depth
-/

mutual

/-- The levels of lists and maps. -/
def depth : Value → Nat
  | .list items => depthItems items + 1
  | .map entries => depthEntries entries + 1
  | _ => 0

/-- The levels of the deepest item. -/
def depthItems : List Value → Nat
  | [] => 0
  | x :: xs => max (depth x) (depthItems xs)

/-- The levels of the deepest entry. -/
def depthEntries : List (Text × Value) → Nat
  | [] => 0
  | (_, x) :: entries => max (depth x) (depthEntries entries)

end

/-!
### Reading tokens
-/

section

open Json Json.Reader

/-- Where a value may begin, it begins, whatever else may stand there. -/
theorem step_begin {frames : List Frame} {place : Place}
    (hplace : place = .value ∨ place = .firstItem) (token : Json.Token)
    (htoken : token ≠ .closeArray) :
    State.step ⟨frames, place⟩ token = State.beginValue frames token := by
  rcases hplace with rfl | rfl
  · rfl
  · cases token with
    | closeArray => exact absurd rfl htoken
    | _ => rfl

/-- A list may begin while there is room for it. -/
theorem step_openArray {frames : List Frame} {place : Place}
    (hplace : place = .value ∨ place = .firstItem) (hroom : frames.length + 1 ≤ depthBound) :
    State.step ⟨frames, place⟩ .openArray = some ⟨.array [] :: frames, .firstItem⟩ :=
  (step_begin hplace .openArray nofun).trans (if_pos hroom)

/-- A map may begin while there is room for it. -/
theorem step_openObject {frames : List Frame} {place : Place}
    (hplace : place = .value ∨ place = .firstItem) (hroom : frames.length + 1 ≤ depthBound) :
    State.step ⟨frames, place⟩ .openObject = some ⟨frames, .firstName⟩ :=
  (step_begin hplace .openObject nofun).trans (if_pos hroom)

/-- One token of a run. -/
theorem foldlM_step {s s' : State} {token : Json.Token} (h : State.step s token = some s')
    (rest : List Json.Token) :
    (token :: rest).foldlM State.step s = rest.foldlM State.step s' := by
  rw [List.foldlM_cons, h]
  rfl

/-- The keys of a document are those of the value. -/
theorem keys_toJsonMembers (entries : List (Text × Value)) :
    Dict.keys (toJsonMembers entries) = Dict.keys entries := by
  induction entries with
  | nil => rfl
  | cons e entries ih => exact congrArg (e.1 :: ·) ih

mutual

/-- The reader makes the document of a value of its tokens: by induction on the value, with the
containers around it on the stack. -/
theorem read_tokens (v : Value) (hv : v.isPlain = true) {frames : List Frame} {place : Place}
    (hplace : place = .value ∨ place = .firstItem) (hdepth : frames.length + v.depth ≤ depthBound)
    (rest : List Json.Token) :
    (v.tokens ++ rest).foldlM State.step ⟨frames, place⟩ =
      rest.foldlM State.step ⟨frames, .behind v.toJson⟩ := by
  match v with
  | .string s => exact foldlM_step ((step_begin hplace (.string s) nofun).trans rfl) rest
  | .number x =>
    exact foldlM_step ((step_begin hplace (.atom (numberToJson x)) nofun).trans rfl) rest
  | .bool b => exact foldlM_step ((step_begin hplace (.atom (.bool b)) nofun).trans rfl) rest
  | .null => exact foldlM_step ((step_begin hplace (.atom .null) nofun).trans rfl) rest
  | .list [] =>
    exact (foldlM_step (step_openArray hplace hdepth) _).trans (foldlM_step rfl rest)
  | .list (x :: xs) =>
    obtain ⟨hx, hxs⟩ := Bool.and_eq_true_iff.1 hv
    simp only [depth, depthItems] at hdepth
    have hfirst : (Frame.array [] :: frames).length + x.depth ≤ depthBound := by
      rw [List.length_cons]
      omega
    simp only [tokens, List.cons_append, List.append_assoc, List.nil_append]
    rw [foldlM_step (step_openArray hplace (by omega)), read_tokens x hx (.inr rfl) hfirst,
      read_tokensItems xs hxs (by omega)]
    rfl
  | .map [] =>
    exact (foldlM_step (step_openObject hplace hdepth) _).trans (foldlM_step rfl rest)
  | .map ((key, x) :: entries) =>
    obtain ⟨hkeys, hplain⟩ := Bool.and_eq_true_iff.1 hv
    obtain ⟨hx, hentries⟩ := Bool.and_eq_true_iff.1 hplain
    simp only [depth, depthEntries] at hdepth
    have hfirst : (Frame.object [] key :: frames).length + x.depth ≤ depthBound := by
      rw [List.length_cons]
      omega
    have hnodup : (Dict.keys ([(key, x.toJson)] ++ toJsonMembers entries)).Nodup := by
      have hsame : Dict.keys ([(key, x.toJson)] ++ toJsonMembers entries) =
          Dict.keys ((key, x) :: entries) := keys_toJsonMembers ((key, x) :: entries)
      rw [hsame]
      exact of_decide_eq_true hkeys
    simp only [tokens, List.cons_append, List.append_assoc, List.nil_append]
    rw [foldlM_step (step_openObject hplace (by omega)), foldlM_step rfl, foldlM_step rfl,
      read_tokens x hx (.inl rfl) hfirst, read_tokensEntries entries hentries (by omega),
      Dict.insert, Dict.insertAll_of_nodup hnodup]
    rfl

/-- The items behind the first, with those before them on the stack. -/
theorem read_tokensItems (xs : List Value) (hxs : arePlain xs = true) {frames : List Frame}
    (hdepth : frames.length + 1 + depthItems xs ≤ depthBound) (done : List Json) (j : Json)
    (rest : List Json.Token) :
    (tokensItems xs ++ .closeArray :: rest).foldlM State.step ⟨.array done :: frames, .behind j⟩ =
      rest.foldlM State.step
        ⟨frames, .behind (.array ((j :: done).reverse ++ toJsonItems xs))⟩ := by
  match xs with
  | [] =>
    rw [toJsonItems, List.append_nil]
    exact foldlM_step rfl rest
  | x :: xs =>
    obtain ⟨hx, hxs⟩ := Bool.and_eq_true_iff.1 hxs
    simp only [depthItems] at hdepth
    have hfirst : (Frame.array (j :: done) :: frames).length + x.depth ≤ depthBound := by
      rw [List.length_cons]
      omega
    simp only [tokensItems, List.cons_append, List.append_assoc]
    rw [foldlM_step rfl, read_tokens x hx (.inl rfl) hfirst, read_tokensItems xs hxs (by omega),
      List.reverse_cons, List.append_assoc]
    rfl

/-- The entries behind the first, with those before them on the stack. -/
theorem read_tokensEntries (entries : List (Text × Value))
    (hentries : arePlainEntries entries = true) {frames : List Frame}
    (hdepth : frames.length + 1 + depthEntries entries ≤ depthBound)
    (done : Dict Json) (name : Text) (j : Json) (rest : List Json.Token) :
    (tokensEntries entries ++ .closeObject :: rest).foldlM State.step
        ⟨.object done name :: frames, .behind j⟩ =
      rest.foldlM State.step
        ⟨frames, .behind (.object ((done.insert name j).insertAll (toJsonMembers entries)))⟩ := by
  match entries with
  | [] => exact foldlM_step rfl rest
  | (key, x) :: entries =>
    obtain ⟨hx, hentries⟩ := Bool.and_eq_true_iff.1 hentries
    simp only [depthEntries] at hdepth
    have hfirst :
        (Frame.object (done.insert name j) key :: frames).length + x.depth ≤ depthBound := by
      rw [List.length_cons]
      omega
    simp only [tokensEntries, List.cons_append, List.append_assoc]
    rw [foldlM_step rfl, foldlM_step rfl, foldlM_step rfl, read_tokens x hx (.inl rfl) hfirst,
      read_tokensEntries entries hentries (by omega)]
    rfl

end

/-- The reader makes the document of a plain value of its tokens. -/
theorem ofTokens?_tokens {v : Value} (hv : v.isPlain = true) (hdepth : v.depth ≤ depthBound) :
    ofTokens? v.tokens = some v.toJson := by
  have hroom : ([] : List Frame).length + v.depth ≤ depthBound := by
    rw [List.length_nil, Nat.zero_add]
    exact hdepth
  have hrun := read_tokens v hv (.inl rfl) hroom []
  rw [List.append_nil] at hrun
  rw [ofTokens?, State.start, hrun]
  rfl

/-- The text of a plain value is read as its document, whatever its layout. -/
theorem read?_text (l : Layout) {v : Value} (hv : v.isPlain = true) (hdepth : v.depth ≤ depthBound)
    (level : Nat) : Json.read? (l.text level v) = some v.toJson := by
  have hlex := l.lex_text level v hv Token.follows_nil Token.lex_nil
  rw [List.append_nil, List.append_nil] at hlex
  rw [Json.read?, hlex]
  exact ofTokens?_tokens hv hdepth

/-- The text of an object whose only entry has the indented text of a plain value. -/
theorem read?_object {v : Value} (hv : v.isPlain = true) (hdepth : v.depth + 1 ≤ depthBound)
    (width : Nat) :
    Json.read? ('{' :: "\"k\": ".toList ++ v.indented width 0 ++ ['}']) =
      some (.object [("k".toList, v.toJson)]) := by
  have hclose := Token.lex_token (by decide : Token.isSpace '}' = false) rfl Token.lex_nil
  have hvalue := (Layout.lines width).lex_text 0 v hv (fun c hc => by cases hc; rfl) hclose
  have hlex := Token.lex_token (by decide : Token.isSpace '{' = false) rfl
    (lex_name (Layout.lines width).gap_space "k".toList hvalue)
  have hmap : (Value.map [("k".toList, v)]).isPlain = true := by
    have hkeys : decide (Dict.keys [("k".toList, v)]).Nodup = true :=
      decide_eq_true (List.pairwise_singleton _ _)
    rw [isPlain, hkeys, arePlainEntries, hv]
    rfl
  have hroom : (Value.map [("k".toList, v)]).depth ≤ depthBound := by
    rw [depth, depthEntries, depthEntries, Nat.max_zero]
    exact hdepth
  have htokens : (Value.map [("k".toList, v)]).tokens =
      .openObject :: .string "k".toList :: .colon :: (v.tokens ++ [.closeObject]) := by
    rw [tokens, tokensEntries, List.append_nil]
    rfl
  rw [← htokens] at hlex
  exact (congrArg (·.bind ofTokens?) hlex).trans (ofTokens?_tokens hmap hroom)

end

/-!
### Equality in order
-/

mutual

/-- Equality of values in which maps also have equal keys in the same order. -/
def equalsInOrder : Value → Value → Bool
  | .string s, .string t => s == t
  | .number x, .number y => x.equals y
  | .bool a, .bool b => a == b
  | .null, .null => true
  | .list xs, .list ys => equalItemsInOrder xs ys
  | .map es, .map fs => equalEntriesInOrder es fs
  | _, _ => false

/-- Equality item by item. -/
def equalItemsInOrder : List Value → List Value → Bool
  | [], [] => true
  | x :: xs, y :: ys => equalsInOrder x y && equalItemsInOrder xs ys
  | _, _ => false

/-- Equality entry by entry. -/
def equalEntriesInOrder : List (Text × Value) → List (Text × Value) → Bool
  | [], [] => true
  | (key, x) :: es, (other, y) :: fs =>
    key == other && equalsInOrder x y && equalEntriesInOrder es fs
  | _, _ => false

end

mutual

/-- A plain value becomes an equal one on the way to its document and back. -/
theorem equalsInOrder_ofJson (v : Value) (hv : v.isPlain = true) :
    (ofJson v.toJson).equalsInOrder v = true := by
  match v with
  | .string s => exact beq_self_eq_true s
  | .number x =>
    obtain ⟨n, hn⟩ := Option.isSome_iff_exists.1 hv
    rw [toJson, numberToJson, hn]
    exact Number.equals_ofInt hn
  | .bool b => exact beq_self_eq_true b
  | .null => rfl
  | .list xs => exact equalItemsInOrder_ofJson xs hv
  | .map entries => exact equalEntriesInOrder_ofJson entries (Bool.and_eq_true_iff.1 hv).2

/-- Item by item. -/
theorem equalItemsInOrder_ofJson (xs : List Value) (hxs : arePlain xs = true) :
    equalItemsInOrder (ofJsonItems (toJsonItems xs)) xs = true := by
  match xs with
  | [] => rfl
  | x :: xs =>
    obtain ⟨hx, hxs⟩ := Bool.and_eq_true_iff.1 hxs
    exact Bool.and_eq_true_iff.2 ⟨equalsInOrder_ofJson x hx, equalItemsInOrder_ofJson xs hxs⟩

/-- Entry by entry. -/
theorem equalEntriesInOrder_ofJson (entries : List (Text × Value))
    (hentries : arePlainEntries entries = true) :
    equalEntriesInOrder (ofJsonMembers (toJsonMembers entries)) entries = true := by
  match entries with
  | [] => rfl
  | (key, x) :: entries =>
    obtain ⟨hx, hentries⟩ := Bool.and_eq_true_iff.1 hentries
    have hentry := Bool.and_eq_true_iff.2 ⟨beq_self_eq_true key, equalsInOrder_ofJson x hx⟩
    exact Bool.and_eq_true_iff.2 ⟨hentry, equalEntriesInOrder_ofJson entries hentries⟩

end

/-- Maps that are equal in order have the same number of entries. -/
theorem length_of_equalEntriesInOrder {es fs : List (Text × Value)}
    (h : equalEntriesInOrder es fs = true) : es.length = fs.length := by
  induction es generalizing fs with
  | nil =>
    cases fs with
    | nil => rfl
    | cons f fs => cases h
  | cons e es ih =>
    cases fs with
    | nil => cases h
    | cons f fs => exact congrArg Nat.succ (ih (Bool.and_eq_true_iff.1 h).2)

mutual

/-- Values that are equal in order are equal, if the keys of each map are different. -/
theorem equals_of_equalsInOrder (w v : Value) (hv : v.isPlain = true)
    (h : w.equalsInOrder v = true) : w.equals v = true := by
  match w, v with
  | .string s, .string t => exact h
  | .number x, .number y => exact h
  | .bool a, .bool b => exact h
  | .null, .null => rfl
  | .list xs, .list ys => exact equalItems_of_inOrder xs ys hv h
  | .map es, .map fs =>
    obtain ⟨hkeys, hplain⟩ := Bool.and_eq_true_iff.1 hv
    have hentries := equalEntries_of_inOrder es fs hplain h fun e he =>
      Dict.get?_of_mem (of_decide_eq_true hkeys) he
    exact Bool.and_eq_true_iff.2 ⟨beq_iff_eq.2 (length_of_equalEntriesInOrder h), hentries⟩

/-- Item by item. -/
theorem equalItems_of_inOrder (xs ys : List Value) (hys : arePlain ys = true)
    (h : equalItemsInOrder xs ys = true) : equalItems xs ys = true := by
  match xs, ys with
  | [], [] => rfl
  | x :: xs, y :: ys =>
    obtain ⟨hy, hys⟩ := Bool.and_eq_true_iff.1 hys
    obtain ⟨hfirst, hrest⟩ := Bool.and_eq_true_iff.1 h
    exact Bool.and_eq_true_iff.2
      ⟨equals_of_equalsInOrder x y hy hfirst, equalItems_of_inOrder xs ys hys hrest⟩

/-- Entry by entry, each found in the dictionary that holds all the others. -/
theorem equalEntries_of_inOrder (es fs : List (Text × Value)) (hfs : arePlainEntries fs = true)
    (h : equalEntriesInOrder es fs = true) {d : Dict Value}
    (hd : ∀ e ∈ fs, d.get? e.1 = some e.2) : equalEntries es d = true := by
  match es, fs with
  | [], [] => rfl
  | (key, x) :: es, (other, y) :: fs =>
    obtain ⟨hy, hfs⟩ := Bool.and_eq_true_iff.1 hfs
    obtain ⟨hfirst, hrest⟩ := Bool.and_eq_true_iff.1 h
    obtain ⟨hkey, hvalue⟩ := Bool.and_eq_true_iff.1 hfirst
    have hfound : d.get? key = some y := eq_of_beq hkey ▸ hd _ List.mem_cons_self
    rw [equalEntries, hfound, Bool.and_eq_true]
    exact ⟨equals_of_equalsInOrder x y hy hvalue,
      equalEntries_of_inOrder es fs hfs hrest fun e he => hd e (List.mem_cons_of_mem _ he)⟩

end

/-- The JSON text of a plain value that is not null is read back, whatever its indentation, and
as an entry of an object it becomes a binding to an equal value, with every map in its order. The
value is the same for all indentations. -/
theorem decode_indentedJson {v : Value} (hnull : v.isNull = false) (hplain : v.isPlain = true)
    (hdepth : v.depth ≤ 126) :
    ∃ w : Value, w.equals v = true ∧ w.equalsInOrder v = true ∧ ∀ width,
      Json.read? (v.indentedJson width) = some v.toJson ∧
      (Json.read? ('{' :: "\"k\": ".toList ++ v.indentedJson width ++ ['}'])).bind
        Context.ofJson? = some [("k".toList, w)] := by
  have horder := equalsInOrder_ofJson v hplain
  refine ⟨ofJson v.toJson, equals_of_equalsInOrder _ v hplain horder, horder, fun width => ?_⟩
  have htext : v.indentedJson width = v.indented width 0 := by
    rw [indentedJson, hnull]
    rfl
  rw [htext, read?_object hplain (Nat.succ_le_succ hdepth)]
  exact ⟨read?_text (Layout.lines width) hplain (Nat.le_succ_of_le hdepth) 0, rfl⟩

/-- A map with a negative zero, an empty map and characters that are escaped. -/
theorem decode_indentedJson_of_nested_map :
    let v : Value := .map [("z".toList, .list [.number (Number.ofInt (-7)), .null,
        .number (.finite true ⟨0, by decide⟩)]),
      ("\"\\\n".toList, .string [Char.ofNat 0x1f600, Char.ofNat 0x7, '/']), ("a".toList, .map [])]
    v.isPlain = true ∧ v.depth = 2 ∧
      ∃ w : Value, w.equals v = true ∧ w.equalsInOrder v = true ∧ ∀ width,
        Json.read? (v.indentedJson width) = some v.toJson ∧
        (Json.read? ('{' :: "\"k\": ".toList ++ v.indentedJson width ++ ['}'])).bind
          Context.ofJson? = some [("k".toList, w)] := by
  intro v
  have hplain : v.isPlain = true := by decide +kernel
  have hdepth : v.depth = 2 := rfl
  exact ⟨hplain, hdepth, decode_indentedJson rfl hplain (by rw [hdepth]; decide)⟩

end Value

end PromptTemplate
