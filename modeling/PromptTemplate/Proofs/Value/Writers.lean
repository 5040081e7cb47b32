import PromptTemplate.Proofs.Value.Tokens
import PromptTemplate.Registry.Builtin

/-!
# Two writers of JSON

A value is written as indented JSON without a document in between, and as compact
JSON by way of one. The indented text is that of the document all the same, and
the two texts of a document differ only in the blanks and line ends outside of
strings: what is deleted there from the indented text leaves the compact one.
Deleting goes from one character to the next and has to know where a string
begins and where it ends.
-/

namespace PromptTemplate

namespace Json

/-!
### Deleting blanks
-/

/-- Where a character of a JSON text stands. -/
inductive Region where
  | between
  | string
  /-- Behind a backslash in a string. -/
  | escaped
  deriving DecidableEq, Repr

/-- Where the next character stands. -/
def Region.next (r : Region) (c : Char) : Region :=
  match r with
  | .between => if c = '"' then .string else .between
  | .string => if c = '\\' then .escaped else if c = '"' then .between else .string
  | .escaped => .string

/-- Blanks and line ends. -/
def isFiller (c : Char) : Bool := c == ' ' || c == '\n'

/-- The text without the blanks and line ends between its strings. -/
def squeezeFrom (r : Region) : Text → Text
  | [] => []
  | c :: t =>
    if r = .between ∧ isFiller c = true then squeezeFrom r t
    else c :: squeezeFrom (r.next c) t

/-- A whole text without the blanks and line ends outside of its strings. -/
def squeeze (t : Text) : Text := squeezeFrom .between t

/-- Blanks in a string stay. -/
example : squeeze "[ \"a \\\" b\" ,\n1 ]".toList = "[\"a \\\" b\",1]".toList := by decide

/-- The first text becomes the second, whatever stands behind it. -/
def Squeezes (t u : Text) : Prop := ∀ rest, squeeze (t ++ rest) = u ++ squeeze rest

namespace Squeezes

variable {t t' u u' : Text}

theorem squeeze_eq (h : Squeezes t u) : squeeze t = u := by
  have hnil := h []
  rwa [List.append_nil, squeeze, squeeze, squeezeFrom, List.append_nil] at hnil

theorem nil : Squeezes [] [] := fun _ => rfl

theorem append (h : Squeezes t u) (h' : Squeezes t' u') : Squeezes (t ++ t') (u ++ u') := by
  intro rest
  rw [List.append_assoc, List.append_assoc, h, h']

/-- A character that begins no string and is no filler stays. -/
theorem cons {c : Char} (hquote : c ≠ '"') (hfiller : isFiller c = false) (h : Squeezes t u) :
    Squeezes (c :: t) (c :: u) := by
  intro rest
  have hnext : Region.next .between c = .between := if_neg hquote
  have hkeep : ¬ (Region.between = .between ∧ isFiller c = true) := by
    rw [hfiller]
    exact fun hboth => Bool.false_ne_true hboth.2
  rw [List.cons_append, squeeze, squeezeFrom, if_neg hkeep, hnext]
  exact congrArg (c :: ·) (h rest)

/-- A text without quotes and filler stays. -/
theorem self (h : ∀ c ∈ t, c ≠ '"' ∧ isFiller c = false) : Squeezes t t := by
  induction t with
  | nil => exact nil
  | cons c t ih =>
    obtain ⟨⟨hquote, hfiller⟩, ht⟩ := List.forall_mem_cons.1 h
    exact cons hquote hfiller (ih ht)

/-- A word without quotes and filler stays. -/
theorem word (h : t.all (fun c => c != '"' && !isFiller c) = true) : Squeezes t t := by
  refine self fun c hc => ?_
  have hkept := List.all_eq_true.1 h c hc
  rwa [Bool.and_eq_true, bne_iff_ne, Bool.not_eq_true'] at hkept

/-- Filler disappears. -/
theorem filler (h : ∀ c ∈ t, isFiller c = true) : Squeezes t [] := by
  intro rest
  induction t with
  | nil => rfl
  | cons c t ih =>
    obtain ⟨hc, ht⟩ := List.forall_mem_cons.1 h
    rw [List.cons_append, squeeze, squeezeFrom, if_pos ⟨rfl, hc⟩]
    exact ih ht

/-- Filler behind a text disappears. -/
theorem append_filler (h : Squeezes t u) (hfiller : ∀ c ∈ t', isFiller c = true) :
    Squeezes (t ++ t') u := by
  have hall := h.append (filler hfiller)
  rwa [List.append_nil] at hall

end Squeezes

/-- A new line is filler. -/
theorem isFiller_of_mem_lineStart {width level : Nat} {c : Char}
    (h : c ∈ lineStart width level) : isFiller c = true := by
  rcases List.mem_cons.1 h with rfl | h
  · rfl
  · rw [List.eq_of_mem_replicate h]
    rfl

/-!
### Strings
-/

/-- In a string every character stays that neither ends it nor escapes the next one. -/
theorem squeezeFrom_string_cons {c : Char} (hquote : c ≠ '"') (hbackslash : c ≠ '\\') (t : Text) :
    squeezeFrom .string (c :: t) = c :: squeezeFrom .string t := by
  have hnext : Region.next .string c = .string := by
    rw [Region.next, if_neg hbackslash, if_neg hquote]
  rw [squeezeFrom, if_neg (fun h => nomatch h.1), hnext]

/-- The spelling of a character stays. -/
theorem Quoted.Spelt.stays {c : Char} {t : Text} (h : Spelt c t) (rest : Text) :
    squeezeFrom .string (t ++ rest) = t ++ squeezeFrom .string rest := by
  cases h with
  | plain hquote hbackslash hcode => exact squeezeFrom_string_cons hquote hbackslash rest
  | short hletter hescape => rfl
  | code hcode =>
    obtain ⟨-, hfirst, hfirst'⟩ := hexDigit_spec (by omega : c.toNat / 16 < 16)
    obtain ⟨-, hsecond, hsecond'⟩ := hexDigit_spec (by omega : c.toNat % 16 < 16)
    have hzero := squeezeFrom_string_cons (by decide : '0' ≠ '"') (by decide : '0' ≠ '\\')
    have hcodes : squeezeFrom .string ('0' :: '0' :: hexDigit (c.toNat / 16) ::
        hexDigit (c.toNat % 16) :: rest) = '0' :: '0' :: hexDigit (c.toNat / 16) ::
        hexDigit (c.toNat % 16) :: squeezeFrom .string rest := by
      rw [hzero, hzero, squeezeFrom_string_cons hfirst hfirst',
        squeezeFrom_string_cons hsecond hsecond']
    exact congrArg (fun t => '\\' :: 'u' :: t) hcodes

/-- A string stays as it is. -/
theorem Squeezes.write (s : Text) : Squeezes (Quoted.write s) (Quoted.write s) := by
  intro rest
  have hbody (s : Text) : squeezeFrom .string (Quoted.encode s ++ '"' :: rest) =
      Quoted.encode s ++ '"' :: squeeze rest := by
    induction s with
    | nil => rfl
    | cons c s ih =>
      rw [Quoted.encode, List.flatMap_cons, List.append_assoc,
        (Quoted.spelt_encodeChar c).stays, List.append_assoc]
      exact congrArg (Quoted.encodeChar c ++ ·) ih
  rw [Quoted.write, List.append_assoc, List.append_assoc]
  exact congrArg ('"' :: ·) (hbody s)

/-!
### Numbers
-/

/-- A count is written with digits. -/
theorem Numeral.isPart_of_mem_ofNat {n : Nat} {c : Char} (h : c ∈ Text.ofNat n) :
    isPart c = true := by
  rw [isPart, Text.isDigit_of_mem_ofNat h]
  rfl

end Json

namespace Number

open Json.Numeral in
/-- Digits with a point hold nothing else. -/
theorem isPart_of_mem_layPositional {keepsPoint : Bool} {d : Decimal} {c : Char}
    (h : c ∈ layPositional keepsPoint d) : isPart c = true := by
  unfold layPositional at h
  simp only at h
  split at h
  · rcases List.mem_append.1 h with h | h
    · rcases List.mem_append.1 h with h | h
      · exact isPart_of_mem_ofNat h
      · rw [List.eq_of_mem_replicate h]
        rfl
    · split at h
      · rcases List.mem_cons.1 h with rfl | h
        · rfl
        · rw [List.mem_singleton.1 h]
          rfl
      · cases h
  · split at h
    · rcases List.mem_append.1 h with h | h
      · exact isPart_of_mem_ofNat (List.mem_of_mem_take h)
      · rcases List.mem_cons.1 h with rfl | h
        · rfl
        · exact isPart_of_mem_ofNat (List.mem_of_mem_drop h)
    · rcases List.mem_cons.1 h with rfl | h
      · rfl
      rcases List.mem_cons.1 h with rfl | h
      · rfl
      rcases List.mem_append.1 h with h | h
      · rw [List.eq_of_mem_replicate h]
        rfl
      · exact isPart_of_mem_ofNat h

open Json.Numeral in
/-- Digits with an exponent hold nothing else. -/
theorem isPart_of_mem_layScientific {d : Decimal} {c : Char}
    (h : c ∈ layScientific d) : isPart c = true := by
  unfold layScientific at h
  simp only at h
  rcases List.mem_append.1 h with h | h
  · rcases List.mem_append.1 h with h | h
    · exact isPart_of_mem_ofNat (List.mem_of_mem_take h)
    · split at h
      · cases h
      · rcases List.mem_cons.1 h with rfl | h
        · rfl
        · exact isPart_of_mem_ofNat (List.mem_of_mem_drop h)
  · rcases List.mem_cons.1 h with rfl | h
    · rfl
    rcases List.mem_cons.1 h with rfl | h
    · split <;> rfl
    · exact isPart_of_mem_ofNat h

open Json.Numeral in
/-- The text of a finite number is made of digits, points, signs and exponent marks. -/
theorem Format.isPart_of_mem_write {format : Format} {negative : Bool} {rank : Nat} {c : Char}
    (h : c ∈ format.write negative rank) : isPart c = true := by
  have hbody {body : Text} (hbody : ∀ c ∈ body, isPart c = true)
      (h : c ∈ if negative then '-' :: body else body) : isPart c = true := by
    split at h
    · rcases List.mem_cons.1 h with rfl | h
      · rfl
      · exact hbody c h
    · exact hbody c h
  refine hbody (fun c hc => ?_) h
  split at hc
  · exact isPart_of_mem_layPositional hc
  · exact isPart_of_mem_layScientific hc

end Number

namespace Json

/-- A text made of characters of numerals stays. -/
theorem Squeezes.number {t : Text} (h : ∀ c ∈ t, Numeral.isPart c = true) : Squeezes t t := by
  refine .self fun c hc => ⟨?_, ?_⟩
  · rintro rfl
    exact absurd (h _ hc) (by decide)
  · have hspace := Token.not_isSpace_of_isPart (h c hc)
    simp only [Token.isSpace, Bool.or_eq_false_iff] at hspace
    rw [isFiller, hspace.1.1.1, hspace.1.2]
    rfl

/-- The text of a number that is no integer stays. -/
theorem Squeezes.writeNumber (x : Number) : Squeezes (writeNumber x) (writeNumber x) := by
  cases x with
  | finite negative rank => exact .number fun c hc => Number.Format.isPart_of_mem_write hc
  | nan => exact .word rfl
  | infinite negative => exact .word rfl

/-- The text of an integer stays. -/
theorem Squeezes.integer (n : Int) : Squeezes (Text.ofInt n) (Text.ofInt n) :=
  .number fun _ hc => Numeral.isPart_of_mem_ofInt hc

/-!
### Documents
-/

/-- A new line disappears behind a character that stays. -/
theorem Squeezes.line {c : Char} (hquote : c ≠ '"') (hfiller : isFiller c = false)
    (width level : Nat) : Squeezes (c :: lineStart width level) [c] :=
  .cons hquote hfiller (.filler fun _ h => isFiller_of_mem_lineStart h)

/-- What is written for a member behind its name. -/
theorem Squeezes.behindName {t u : Text} (h : Squeezes t u) :
    Squeezes (':' :: ' ' :: t) (':' :: u) := by
  have hblank : Squeezes [' '] [] := .filler fun c hc => by
    rw [List.mem_singleton.1 hc]
    rfl
  exact .cons (by decide) rfl (hblank.append h)

mutual

/-- The indented text of a document becomes the compact text: by induction on the document,
level by level. -/
theorem squeezes_indented (width level : Nat) (j : Json) :
    Squeezes (j.indented width level) j.compact := by
  match j with
  | .null => exact .word rfl
  | .bool true => exact .word rfl
  | .bool false => exact .word rfl
  | .integer n => exact .integer n
  | .decimal x => exact .writeNumber x
  | .string s => exact .write s
  | .array [] => exact .word rfl
  | .array (item :: items) =>
    have hfirst := (Squeezes.line (by decide : '[' ≠ '"') rfl width (level + 1)).append
      (squeezes_indented width (level + 1) item)
    have hitems := hfirst.append (squeezes_indentedItems width (level + 1) items)
    exact (hitems.append_filler fun _ h => isFiller_of_mem_lineStart h).append (.word rfl)
  | .object [] => exact .word rfl
  | .object ((name, j) :: members) =>
    have hname := (Squeezes.line (by decide : '{' ≠ '"') rfl width (level + 1)).append
      (.write name)
    have hfirst := hname.append (squeezes_indented width (level + 1) j).behindName
    have hmembers := hfirst.append (squeezes_indentedMembers width (level + 1) members)
    exact (hmembers.append_filler fun _ h => isFiller_of_mem_lineStart h).append (.word rfl)

/-- The items behind the first. -/
theorem squeezes_indentedItems (width level : Nat) (items : List Json) :
    Squeezes (indentedItems width level items) (compactItems items) := by
  match items with
  | [] => exact .nil
  | item :: items =>
    have hitem := (Squeezes.line (by decide : ',' ≠ '"') rfl width level).append
      (squeezes_indented width level item)
    exact hitem.append (squeezes_indentedItems width level items)

/-- The members behind the first. -/
theorem squeezes_indentedMembers (width level : Nat) (members : List (Text × Json)) :
    Squeezes (indentedMembers width level members) (compactMembers members) := by
  match members with
  | [] => exact .nil
  | (name, j) :: members =>
    have hname := (Squeezes.line (by decide : ',' ≠ '"') rfl width level).append (.write name)
    have hmember := hname.append (squeezes_indented width level j).behindName
    exact hmember.append (squeezes_indentedMembers width level members)

end

end Json

namespace Value

/-!
### Values
-/

mutual

/-- The indented text of a value is the indented text of its document. -/
theorem indented_eq (width level : Nat) (v : Value) :
    v.indented width level = v.toJson.indented width level := by
  match v with
  | .string s => rfl
  | .number x => exact (writeNumber_eq x).2 width level
  | .bool b => rfl
  | .null => rfl
  | .list [] => rfl
  | .list (x :: xs) =>
    rw [indented, toJson, toJsonItems, Json.indented, indented_eq width (level + 1) x,
      indentedItems_eq width (level + 1) xs]
  | .map [] => rfl
  | .map ((key, x) :: entries) =>
    rw [indented, toJson, toJsonMembers, Json.indented, indented_eq width (level + 1) x,
      indentedEntries_eq width (level + 1) entries]

/-- The items behind the first. -/
theorem indentedItems_eq (width level : Nat) (xs : List Value) :
    indentedItems width level xs = Json.indentedItems width level (toJsonItems xs) := by
  match xs with
  | [] => rfl
  | x :: xs =>
    rw [indentedItems, toJsonItems, Json.indentedItems, indented_eq width level x,
      indentedItems_eq width level xs]

/-- The entries behind the first. -/
theorem indentedEntries_eq (width level : Nat) (entries : List (Text × Value)) :
    indentedEntries width level entries =
      Json.indentedMembers width level (toJsonMembers entries) := by
  match entries with
  | [] => rfl
  | (key, x) :: entries =>
    rw [indentedEntries, toJsonMembers, Json.indentedMembers, indented_eq width level x,
      indentedEntries_eq width level entries]

end

/-- The two writers of JSON agree. Without the blanks and line ends outside of its strings the
indented text of a list or a map is the text that a template prints for it, whatever the
indentation; and a text, a number or a truth value has only one JSON text. -/
theorem indentedJson_agrees (width : Nat) :
    (∀ items, Json.squeeze (indentedJson (.list items) width) = toText (.list items)) ∧
      (∀ entries, Json.squeeze (indentedJson (.map entries) width) = toText (.map entries)) ∧
      (∀ s, indentedJson (.string s) width = (toJson (.string s)).compact) ∧
      (∀ x, indentedJson (.number x) width = (toJson (.number x)).compact) ∧
      ∀ b, indentedJson (.bool b) width = (toJson (.bool b)).compact := by
  have hsqueeze (v : Value) : Json.squeeze (v.indented width 0) = v.toJson.compact := by
    rw [indented_eq]
    exact (Json.squeezes_indented width 0 v.toJson).squeeze_eq
  exact ⟨fun items => hsqueeze (.list items), fun entries => hsqueeze (.map entries),
    fun s => rfl, fun x => (writeNumber_eq x).1, fun b => rfl⟩

end Value

end PromptTemplate
