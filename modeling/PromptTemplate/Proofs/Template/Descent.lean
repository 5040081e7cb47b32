import PromptTemplate.Proofs.Template.Grammar
import PromptTemplate.Proofs.Template.Refusal

/-!
# Descent into blocks

A template can be read by descent: a conditional reads the nodes of its arm, and
whatever stands behind them decides how it goes on; nodes are read up to the
first terminator, which is left. A descent meets tokens in more places than an
assembly, and refuses by the token whatever it cannot use. The two agree on every
sequence of tokens, so no descent is refused by a token that is no terminator.
-/

namespace PromptTemplate

namespace Descent

/-- Why a descent ends: for a cause that is no token, or by a token of any kind. -/
inductive Refusal where
  | cause (e : SyntaxError)
  | unexpected (t : Token)
  deriving DecidableEq, Repr

/-- What a descent reads from the beginning of at most `length` tokens, and what it leaves. -/
structure Read (α : Type) (length : Nat) where
  result : α
  rest : List Token
  length_rest_le : rest.length ≤ length

/-- What stands behind the first token that is left is shorter. -/
theorem Read.length_lt {α : Type} {length : Nat} (r : Read α length) {t : Token}
    {rest : List Token} (h : r.rest = t :: rest) : rest.length < length := by
  have hle := r.length_rest_le
  rwa [h] at hle

/-- A cause that is no token. -/
def liftCause {α : Type} (x : Except SyntaxError α) : Except Refusal α := x.mapError .cause

mutual

/-- The nodes before the first terminator. -/
def nodes (ts : List Token) : Except Refusal (Read (List Node) ts.length) :=
  match ts with
  | [] => .ok ⟨[], [], Nat.le_refl _⟩
  | .terminator t :: later => .ok ⟨[], .terminator t :: later, Nat.le_refl _⟩
  | t :: later => do
    let first ← node t later
    let others ← nodes first.rest
    return ⟨first.result :: others.result, others.rest,
      Nat.le_succ_of_le (Nat.le_trans others.length_rest_le first.length_rest_le)⟩
termination_by (ts.length, 0)
decreasing_by
  · exact Prod.Lex.left _ _ (Nat.lt_succ_self _)
  · exact Prod.Lex.left _ _ (Nat.lt_succ_of_le first.length_rest_le)

/-- The node that begins with a token. -/
def node (t : Token) (later : List Token) : Except Refusal (Read Node later.length) :=
  match t with
  | .text value trim => .ok ⟨.text value trim, later, Nat.le_refl _⟩
  | .interpolation expression trim =>
    .ok ⟨.interpolation expression trim, later, Nat.le_refl _⟩
  | .ifStart condition => conditional condition later
  | .forStart item source => loop item source later
  | .assign name expression => .ok ⟨.assign name expression, later, Nat.le_refl _⟩
  | .raise message => .ok ⟨.raise message, later, Nat.le_refl _⟩
  -- Nodes end before a terminator, so none gets here.
  | other => .error (.unexpected other)
termination_by (later.length, 2)

/-- The conditional behind its first condition, or behind a further one. -/
def conditional (condition : Text) (ts : List Token) : Except Refusal (Read Node ts.length) := do
  let condition ← liftCause (Condition.read condition)
  let children ← nodes ts
  match h : children.rest with
  | .terminator .endIf :: rest =>
    return ⟨.branch condition children.result [], rest, Nat.le_of_lt (children.length_lt h)⟩
  | .terminator (.elseIf next) :: rest =>
    let further ← conditional next rest
    return ⟨.branch condition children.result [further.result], further.rest,
      Nat.le_of_lt (Nat.lt_of_le_of_lt further.length_rest_le (children.length_lt h))⟩
  | .terminator .otherwise :: rest =>
    let otherwise ← nodes rest
    match k : otherwise.rest with
    | .terminator .endIf :: rest =>
      return ⟨.branch condition children.result otherwise.result, rest,
        Nat.le_of_lt (Nat.lt_trans (otherwise.length_lt k) (children.length_lt h))⟩
    | other :: _ => .error (.unexpected other)
    | [] => .error (.cause (.unclosedBlock .conditional))
  | other :: _ => .error (.unexpected other)
  | [] => .error (.cause (.unclosedBlock .conditional))
termination_by (ts.length, 1)
decreasing_by
  · exact Prod.Lex.right _ (by decide)
  · exact Prod.Lex.left _ _ (children.length_lt h)
  · exact Prod.Lex.left _ _ (children.length_lt h)

/-- The loop behind its head. -/
def loop (item source : Text) (ts : List Token) : Except Refusal (Read Node ts.length) := do
  let source ← liftCause (LoopSource.read source)
  let children ← nodes ts
  match h : children.rest with
  | .terminator .endFor :: rest =>
    return ⟨.loop item source children.result, rest, Nat.le_of_lt (children.length_lt h)⟩
  | other :: _ => .error (.unexpected other)
  | [] => .error (.cause (.unclosedBlock .loop))
termination_by (ts.length, 1)
decreasing_by exact Prod.Lex.right _ (by decide)

end

/-- The template that a sequence of tokens makes up: nodes, and nothing behind them. -/
def template (ts : List Token) : Except Refusal Template := do
  let found ← nodes ts
  match found.rest with
  | [] => return found.result
  | other :: _ => .error (.unexpected other)

/-!
### Descent and assembly
-/

/-- A refusal of an assembly as one of a descent. -/
def Refusal.ofError : SyntaxError → Refusal
  | .unexpected t => .unexpected (.terminator t)
  | e => .cause e

/-- What an assembly makes of the rest of the tokens. -/
def complete (s : Assembly.State) (ts : List Token) : Except Refusal Template :=
  (s.run ts >>= Assembly.State.finish).mapError Refusal.ofError

/-- A token that is read hands the rest to the state behind it. -/
theorem complete_cons {s s' : Assembly.State} {t : Token} (h : s.step t = .ok s')
    (later : List Token) : complete s (t :: later) = complete s' later := by
  rw [complete, Assembly.State.run_cons_of_step h]
  rfl

/-- So it does behind a text that is read first, and is refused with the text. -/
theorem complete_cons_of_bind {s : Assembly.State} {t : Token} {α : Type}
    {x : Except SyntaxError α} {next : α → Assembly.State}
    (h : s.step t = x >>= fun a => .ok (next a)) (hx : ∀ t', x ≠ .error (.unexpected t'))
    (later : List Token) :
    complete s (t :: later) = liftCause x >>= fun a => complete (next a) later := by
  rw [complete, Assembly.State.run_cons, h]
  cases x with
  | ok a => rfl
  | error e =>
    cases e with
    | unexpected t' => exact absurd rfl (hx t')
    | _ => rfl

/-- A terminator that is refused decides, whatever follows. -/
theorem complete_cons_of_error {s : Assembly.State} {t : Terminator}
    (h : s.step (.terminator t) = .error (.unexpected t)) (later : List Token) :
    complete s (.terminator t :: later) = .error (.unexpected (.terminator t)) := by
  rw [complete, Assembly.State.run_cons, h]
  rfl

/-- A condition is never refused as an unexpected tag. -/
theorem read_ne_unexpected (condition : Text) (t : Terminator) :
    Condition.read condition ≠ .error (.unexpected t) := by
  intro he
  obtain ⟨text, h⟩ := Condition.exists_of_read_eq_error he
  cases h

/-- A token that is no terminator begins a node, and nodes follow. -/
theorem nodes_cons {t : Token} (ht : ¬∃ t', t = .terminator t') (later : List Token) :
    nodes (t :: later) = node t later >>= fun first => nodes first.rest >>= fun others =>
      .ok ⟨first.result :: others.result, others.rest,
        Nat.le_succ_of_le (Nat.le_trans others.length_rest_le first.length_rest_le)⟩ := by
  rw [nodes]
  · rfl
  · exact fun t' h => ht ⟨t', h⟩

/-- Nodes are read up to a terminator or to the end. -/
theorem rest_of_nodes {ts : List Token} {found : Read (List Node) ts.length}
    (h : nodes ts = .ok found) :
    found.rest = [] ∨ ∃ t rest, found.rest = .terminator t :: rest := by
  match ts with
  | [] =>
    rw [nodes] at h
    cases h
    exact .inl rfl
  | t :: later =>
    by_cases ht : ∃ t', t = .terminator t'
    · obtain ⟨t', rfl⟩ := ht
      rw [nodes] at h
      cases h
      exact .inr ⟨t', later, rfl⟩
    · rw [nodes_cons ht] at h
      obtain ⟨first, -, h⟩ := Assembly.bind_eq_ok h
      obtain ⟨others, hothers, h⟩ := Assembly.bind_eq_ok h
      cases h
      have hrest := rest_of_nodes hothers
      exact hrest
termination_by ts.length
decreasing_by exact Nat.lt_succ_of_le first.length_rest_le

-- The frames of an assembly are the calls of a descent that wait for what they enclose, so
-- every statement holds under any frames.
mutual

/-- Reading nodes by descent is reading them by assembly. -/
theorem complete_nodes (before : List Node) (frames : List Assembly.Frame) (ts : List Token) :
    complete ⟨before, frames⟩ ts = nodes ts >>= fun found =>
      complete ⟨found.result.reverse ++ before, frames⟩ found.rest := by
  match ts with
  | [] => rw [nodes]; rfl
  | t :: later =>
    by_cases ht : ∃ t', t = .terminator t'
    · obtain ⟨t', rfl⟩ := ht
      rw [nodes]
      rfl
    · rw [complete_node before frames ht later, nodes_cons ht, bind_assoc]
      cases node t later with
      | error e => rfl
      | ok first =>
        change complete ⟨first.result :: before, frames⟩ first.rest = nodes first.rest >>= _ >>= _
        rw [complete_nodes (first.result :: before) frames first.rest, bind_assoc]
        cases nodes first.rest with
        | error e => rfl
        | ok others =>
          change _ = complete ⟨(first.result :: others.result).reverse ++ before, frames⟩ _
          rw [List.reverse_cons, List.append_assoc]
          rfl
termination_by (ts.length, 0)
decreasing_by
  · exact Prod.Lex.left _ _ (Nat.lt_succ_self _)
  · exact Prod.Lex.left _ _ (Nat.lt_succ_of_le first.length_rest_le)

/-- So is reading a node. -/
theorem complete_node (before : List Node) (frames : List Assembly.Frame) {t : Token}
    (ht : ¬∃ t', t = .terminator t') (later : List Token) :
    complete ⟨before, frames⟩ (t :: later) = node t later >>= fun found =>
      complete ⟨found.result :: before, frames⟩ found.rest := by
  match t with
  | .text value trim => rw [node]; exact complete_cons rfl later
  | .interpolation expression trim => rw [node]; exact complete_cons rfl later
  | .assign name expression => rw [node]; exact complete_cons rfl later
  | .raise message => rw [node]; exact complete_cons rfl later
  | .terminator t' => exact absurd ⟨t', rfl⟩ ht
  | .ifStart condition =>
    rw [node, complete_cons_of_bind rfl (read_ne_unexpected condition) later]
    exact complete_conditional before [] frames condition later
  | .forStart item source =>
    have hread : ∀ t', LoopSource.read source ≠ .error (.unexpected t') := by
      intro t' he
      obtain ⟨text, h⟩ := LoopSource.exists_of_read_eq_error he
      cases h
    rw [node, complete_cons_of_bind rfl hread later]
    exact complete_loop before frames item source later
termination_by (later.length, 2)
decreasing_by
  · exact Prod.Lex.right _ (by decide)
  · exact Prod.Lex.right _ (by decide)

/-- A conditional, behind the arms that an assembly has read so far. -/
theorem complete_conditional (before : List Node) (earlier : List Assembly.Arm)
    (frames : List Assembly.Frame) (condition : Text) (ts : List Token) :
    (liftCause (Condition.read condition) >>= fun condition =>
      complete ⟨[], .arm before earlier condition :: frames⟩ ts) =
      conditional condition ts >>= fun found =>
        complete ⟨Assembly.branches earlier [found.result] ++ before, frames⟩ found.rest := by
  rw [conditional]
  cases Condition.read condition with
  | error e => rfl
  | ok condition =>
    change complete ⟨[], .arm before earlier condition :: frames⟩ ts = nodes ts >>= _ >>= _
    rw [complete_nodes [] (.arm before earlier condition :: frames) ts]
    cases hchildren : nodes ts with
    | error e => rfl
    | ok children =>
      have hends := rest_of_nodes hchildren
      obtain ⟨children, rest, hle⟩ := children
      obtain rfl | ⟨t, rest, rfl⟩ := hends
      · rfl
      · change complete ⟨children.reverse ++ [], _⟩ _ = _
        rw [List.append_nil]
        cases t with
        | endIf =>
          change _ = complete ⟨_, _⟩ _
          rw [complete_cons rfl, List.reverse_reverse]
          rfl
        | elseIf next =>
          -- The arm joins the earlier ones; the descent puts the rest of the chain under it.
          change _ = conditional next rest >>= _ >>= _
          rw [complete_cons_of_bind rfl (read_ne_unexpected next), complete_conditional,
            bind_assoc, List.reverse_reverse]
          rfl
        | otherwise =>
          change _ = nodes rest >>= _ >>= _
          rw [complete_cons rfl, complete_nodes, bind_assoc]
          cases hotherwise : nodes rest with
          | error e => rfl
          | ok otherwise =>
            have hends := rest_of_nodes hotherwise
            obtain ⟨otherwise, rest, hle⟩ := otherwise
            obtain rfl | ⟨t, rest, rfl⟩ := hends
            · rfl
            · change complete ⟨otherwise.reverse ++ [], _⟩ _ = _
              rw [List.append_nil]
              cases t with
              | endIf =>
                change _ = complete ⟨_, _⟩ _
                rw [complete_cons rfl, List.reverse_reverse, List.reverse_reverse]
                rfl
              | elseIf next => exact complete_cons_of_error rfl rest
              | otherwise => exact complete_cons_of_error rfl rest
              | endFor => exact complete_cons_of_error rfl rest
        | endFor => exact complete_cons_of_error rfl rest
termination_by (ts.length, 1)
decreasing_by
  · exact Prod.Lex.right _ (by decide)
  · exact Prod.Lex.left _ _ hle
  · exact Prod.Lex.left _ _ hle

/-- A loop. -/
theorem complete_loop (before : List Node) (frames : List Assembly.Frame) (item source : Text)
    (ts : List Token) :
    (liftCause (LoopSource.read source) >>= fun source =>
      complete ⟨[], .loop before item source :: frames⟩ ts) =
      loop item source ts >>= fun found =>
        complete ⟨found.result :: before, frames⟩ found.rest := by
  rw [loop]
  cases LoopSource.read source with
  | error e => rfl
  | ok source =>
    change complete ⟨[], .loop before item source :: frames⟩ ts = nodes ts >>= _ >>= _
    rw [complete_nodes [] (.loop before item source :: frames) ts]
    cases hchildren : nodes ts with
    | error e => rfl
    | ok children =>
      have hends := rest_of_nodes hchildren
      obtain ⟨children, rest, hle⟩ := children
      obtain rfl | ⟨t, rest, rfl⟩ := hends
      · rfl
      · change complete ⟨children.reverse ++ [], _⟩ _ = _
        rw [List.append_nil]
        cases t with
        | endFor =>
          change _ = complete ⟨_, _⟩ _
          rw [complete_cons rfl, List.reverse_reverse]
        | elseIf next => exact complete_cons_of_error rfl rest
        | otherwise => exact complete_cons_of_error rfl rest
        | endIf => exact complete_cons_of_error rfl rest
termination_by (ts.length, 1)
decreasing_by exact Prod.Lex.right _ (by decide)

end

/-- Descent and assembly make the same template of the same tokens, and refuse them alike. -/
theorem template_eq (ts : List Token) :
    template ts = (Template.ofTokens ts).mapError Refusal.ofError := by
  have h := complete_nodes [] [] ts
  change complete Assembly.State.start ts = _ at h
  rw [Assembly.ofTokens_eq]
  change _ = complete Assembly.State.start ts
  rw [h, template]
  cases hfound : nodes ts with
  | error e => rfl
  | ok found =>
    have hends := rest_of_nodes hfound
    obtain ⟨found, rest, hle⟩ := found
    obtain rfl | ⟨t, rest, rfl⟩ := hends
    · change Except.ok found = Except.ok (found.reverse ++ []).reverse
      rw [List.append_nil, List.reverse_reverse]
    · have hstray : Assembly.State.step ⟨found.reverse ++ [], []⟩ (.terminator t) =
          .error (.unexpected t) := by
        cases t with
        | elseIf next => rfl
        | otherwise => rfl
        | endIf => rfl
        | endFor => rfl
      exact (complete_cons_of_error hstray rest).symm

end Descent

end PromptTemplate
