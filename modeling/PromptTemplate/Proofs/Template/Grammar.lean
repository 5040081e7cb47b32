import PromptTemplate.Template.Assembly

/-!
# The block grammar

A derivation says which tokens make up which nodes, without a stack and without
an order of reading. The conditions of a chain share one end tag: behind an
`elif` stands the same text as behind an `if`, and the end tag belongs to the
innermost branch. The assembly of templates accepts exactly what is derivable
and builds exactly the derived nodes.
-/

namespace PromptTemplate

namespace Grammar

mutual

/-- The tokens that make up a sequence of nodes. -/
inductive Derives : List Token → List Node → Prop
  | nil : Derives [] []
  | cons {ts us : List Token} {n : Node} {ns : List Node} :
      DerivesNode ts n → Derives us ns → Derives (ts ++ us) (n :: ns)

/-- The tokens that make up one node. -/
inductive DerivesNode : List Token → Node → Prop
  | text (value : Text) (trim : Trim) : DerivesNode [.text value trim] (.text value trim)
  | interpolation (expression : Text) (trim : Trim) :
      DerivesNode [.interpolation expression trim] (.interpolation expression trim)
  | assign (name expression : Text) :
      DerivesNode [.assign name expression] (.assign name expression)
  | raise (message : Text) : DerivesNode [.raise message] (.raise message)
  | ifEnd {c : Text} {condition : Condition} {a : List Token} {children : List Node} :
      Condition.read c = .ok condition → Derives a children →
      DerivesNode (.ifStart c :: (a ++ [.terminator .endIf])) (.branch condition children [])
  | ifElse {c : Text} {condition : Condition} {a e : List Token}
      {children otherwise : List Node} :
      Condition.read c = .ok condition → Derives a children → Derives e otherwise →
      DerivesNode (.ifStart c :: (a ++ .terminator .otherwise :: (e ++ [.terminator .endIf])))
        (.branch condition children otherwise)
  /-- The tail behind an `elif`, read as if it stood behind an `if`, is the node of the
  otherwise part. -/
  | ifElseIf {c d : Text} {condition : Condition} {a tail : List Token}
      {children : List Node} {n : Node} :
      Condition.read c = .ok condition → Derives a children →
      DerivesNode (.ifStart d :: tail) n →
      DerivesNode (.ifStart c :: (a ++ .terminator (.elseIf d) :: tail))
        (.branch condition children [n])
  | loop (item : Text) {list : Text} {source : LoopSource} {b : List Token}
      {children : List Node} :
      LoopSource.read list = .ok source → Derives b children →
      DerivesNode (.forStart item list :: (b ++ [.terminator .endFor]))
        (.loop item source children)

end

/-- One node is a sequence of nodes. -/
theorem DerivesNode.single {ts : List Token} {n : Node} (h : DerivesNode ts n) :
    Derives ts [n] := by
  have hone := Derives.cons h Derives.nil
  rwa [List.append_nil] at hone

/-- Derivations of sequences concatenate. -/
theorem Derives.append {ts us : List Token} {ns ms : List Node} (h : Derives ts ns)
    (k : Derives us ms) : Derives (ts ++ us) (ns ++ ms) := by
  match h with
  | .nil => exact k
  | .cons hn hrest =>
    rw [List.append_assoc]
    exact Derives.cons hn (hrest.append k)

/-- A sequence grows by one node at its end. -/
theorem Derives.snoc {ts us : List Token} {ns : List Node} {n : Node} (h : Derives ts ns)
    (k : DerivesNode us n) : Derives (ts ++ us) (ns ++ [n]) := h.append k.single

end Grammar

namespace Assembly

open Grammar

/-- Two computations one behind the other succeed only if both do. -/
theorem bind_eq_ok {ε α β : Type} {x : Except ε α} {f : α → Except ε β} {b : β}
    (h : x >>= f = .ok b) : ∃ a, x = .ok a ∧ f a = .ok b := by
  cases x with
  | error e => cases h
  | ok a => exact ⟨a, rfl, h⟩

/-- Reads tokens one after the other. -/
def State.run (s : State) (ts : List Token) : Except SyntaxError State := ts.foldlM State.step s

/-- The innermost block grows by one node. -/
def State.push (s : State) (n : Node) : State := { s with nodes := n :: s.nodes }

@[simp] theorem State.run_nil (s : State) : s.run [] = .ok s := rfl

theorem State.run_cons (s : State) (t : Token) (ts : List Token) :
    s.run (t :: ts) = s.step t >>= (State.run · ts) := List.foldlM_cons

/-- Reading two sequences is reading the second from where the first leads. -/
theorem State.run_append (s : State) (ts us : List Token) :
    s.run (ts ++ us) = s.run ts >>= (State.run · us) := List.foldlM_append

/-- A step that leads on hands the rest of the tokens to the state behind it. -/
theorem State.run_cons_of_step {s s' : State} {t : Token} (h : s.step t = .ok s')
    (ts : List Token) : s.run (t :: ts) = s'.run ts := by
  rw [State.run_cons, h]
  rfl

/-- Tokens that lead on hand the rest to the state behind them. -/
theorem State.run_append_of_run {s s' : State} {ts : List Token} (h : s.run ts = .ok s')
    (us : List Token) : s.run (ts ++ us) = s'.run us := by
  rw [State.run_append, h]
  rfl

/-- An `if` opens a conditional with its first arm. -/
theorem State.step_ifStart (s : State) {c : Text} {condition : Condition}
    (h : Condition.read c = .ok condition) :
    s.step (.ifStart c) = .ok ⟨[], .arm s.nodes [] condition :: s.frames⟩ := by
  rw [State.step, h]
  rfl

/-- A `for` opens a loop. -/
theorem State.step_forStart (s : State) {item list : Text} {source : LoopSource}
    (h : LoopSource.read list = .ok source) :
    s.step (.forStart item list) = .ok ⟨[], .loop s.nodes item source :: s.frames⟩ := by
  rw [State.step, h]
  rfl

/-- An `elif` completes the open arm and opens the next. -/
theorem State.step_elseIf {nodes before : List Node} {earlier : List Arm} {current : Condition}
    {frames : List Frame} {d : Text} {next : Condition} (h : Condition.read d = .ok next) :
    State.step ⟨nodes, .arm before earlier current :: frames⟩ (.terminator (.elseIf d)) =
      .ok ⟨[], .arm before (⟨current, nodes.reverse⟩ :: earlier) next :: frames⟩ := by
  simp only [State.step, State.terminate, h]
  rfl

/-- A template is read from the start and must leave no block open. -/
theorem ofTokens_eq (ts : List Token) :
    Template.ofTokens ts = State.start.run ts >>= State.finish := rfl

/-!
### Every derivation is read
-/

/-- Behind the condition `d` of any arm, the tail completes the whole conditional: the
node of the tail stands under the earlier arms. -/
def RunsTail (d : Text) (tail : List Token) (n : Node) : Prop :=
  ∃ condition, Condition.read d = .ok condition ∧
    ∀ before earlier frames, State.run ⟨[], .arm before earlier condition :: frames⟩ tail =
      .ok ⟨branches earlier [n] ++ before, frames⟩

/-- Reading the tokens adds the node, and of a conditional also the tail alone does. -/
def Runs (ts : List Token) (n : Node) : Prop :=
  (∀ s : State, s.run ts = .ok (s.push n)) ∧
    ∀ d tail, ts = .ifStart d :: tail → RunsTail d tail n

/-- A conditional is read by its tail, with no arm before. -/
theorem RunsTail.runs {d : Text} {tail : List Token} {n : Node} (h : RunsTail d tail n) :
    Runs (.ifStart d :: tail) n := by
  constructor
  · intro s
    obtain ⟨condition, hc, htail⟩ := h
    rw [State.run_cons_of_step (s.step_ifStart hc), htail]
    rfl
  · rintro _ _ ⟨⟩
    exact h

/-- A token that only adds a node. -/
theorem runs_of_step {t : Token} {n : Node} (hstep : ∀ s : State, s.step t = .ok (s.push n))
    (ht : ∀ d, t ≠ .ifStart d) : Runs [t] n := by
  constructor
  · intro s
    rw [State.run_cons_of_step (hstep s), State.run_nil]
  · rintro d _ ⟨⟩
    exact absurd rfl (ht d)

mutual

/-- The tokens of a sequence add its nodes to the innermost block. -/
theorem run_of_derives {ts : List Token} {ns : List Node} (h : Derives ts ns) (s : State) :
    s.run ts = .ok { s with nodes := ns.reverse ++ s.nodes } := by
  match h with
  | .nil => rfl
  | .cons hn hrest =>
    rw [State.run_append_of_run ((runs_of_derivesNode hn).1 s), run_of_derives hrest,
      List.reverse_cons, List.append_assoc]
    rfl

/-- The tokens of a node add it to the innermost block. -/
theorem runs_of_derivesNode {ts : List Token} {n : Node} (h : DerivesNode ts n) :
    Runs ts n := by
  match h with
  | .text .. => exact runs_of_step (fun _ => rfl) nofun
  | .interpolation .. => exact runs_of_step (fun _ => rfl) nofun
  | .assign .. => exact runs_of_step (fun _ => rfl) nofun
  | .raise .. => exact runs_of_step (fun _ => rfl) nofun
  | .ifEnd hc ha =>
    refine RunsTail.runs ⟨_, hc, fun before earlier frames => ?_⟩
    rw [State.run_append_of_run (run_of_derives ha _), List.append_nil,
      State.run_cons_of_step rfl, State.run_nil, List.reverse_reverse]
    rfl
  | .ifElse hc ha he =>
    refine RunsTail.runs ⟨_, hc, fun before earlier frames => ?_⟩
    rw [State.run_append_of_run (run_of_derives ha _), List.append_nil,
      State.run_cons_of_step rfl, State.run_append_of_run (run_of_derives he _), List.append_nil,
      State.run_cons_of_step rfl, State.run_nil, List.reverse_reverse, List.reverse_reverse]
    rfl
  | .ifElseIf hc ha htail =>
    obtain ⟨next, hnext, hrun⟩ := (runs_of_derivesNode htail).2 _ _ rfl
    refine RunsTail.runs ⟨_, hc, fun before earlier frames => ?_⟩
    -- The arm read so far joins the earlier ones, and the tail goes on from there.
    rw [State.run_append_of_run (run_of_derives ha _), List.append_nil,
      State.run_cons_of_step (State.step_elseIf hnext), hrun, List.reverse_reverse]
    rfl
  | .loop item hl hb =>
    constructor
    · intro s
      rw [State.run_cons_of_step (s.step_forStart hl), State.run_append_of_run
        (run_of_derives hb _), List.append_nil, State.run_cons_of_step rfl, State.run_nil,
        List.reverse_reverse]
      rfl
    · rintro _ _ ⟨⟩

end

/-- Tokens that derive nodes make up the template of these nodes. -/
theorem ofTokens_of_derives {ts : List Token} {ns : List Node} (h : Derives ts ns) :
    Template.ofTokens ts = .ok ns := by
  rw [ofTokens_eq, run_of_derives h]
  change Except.ok (ns.reverse ++ []).reverse = Except.ok ns
  rw [List.append_nil, List.reverse_reverse]

/-!
### Whatever is read is derivable
-/

/-- The tokens `opening` of a conditional up to the condition `d` of its open arm, behind
the arms `earlier`: whatever node stands behind `if d` stands under the earlier arms. -/
def Continues (earlier : List Arm) (opening : List Token) (d : Text) : Prop :=
  ∀ tail n, DerivesNode (.ifStart d :: tail) n →
    ∃ whole, DerivesNode (opening ++ tail) whole ∧ branches earlier [n] = [whole]

/-- The tokens `opening` of a conditional up to its `else`, behind all arms: with an
otherwise part and an end tag they derive the chain of the arms. -/
def Otherwise (arms : List Arm) (opening : List Token) : Prop :=
  ∀ e nodes, Derives e nodes → ∃ whole,
    DerivesNode (opening ++ (e ++ [.terminator .endIf])) whole ∧ branches arms nodes = [whole]

/-- The tokens read so far and the state behind them: the nodes of every block that is
open are derived from the tokens since its opening. -/
inductive Reads : List Token → State → Prop
  | base {ts : List Token} {nodes : List Node} : Derives ts nodes.reverse → Reads ts ⟨nodes, []⟩
  | arm {ts opening a : List Token} {nodes before : List Node} {earlier : List Arm}
      {condition : Condition} {d : Text} {frames : List Frame} :
      Reads ts ⟨before, frames⟩ → Condition.read d = .ok condition →
      Continues earlier opening d → Derives a nodes.reverse →
      Reads (ts ++ opening ++ a) ⟨nodes, .arm before earlier condition :: frames⟩
  | otherwise {ts opening e : List Token} {nodes before : List Node} {arms : List Arm}
      {frames : List Frame} :
      Reads ts ⟨before, frames⟩ → Otherwise arms opening → Derives e nodes.reverse →
      Reads (ts ++ opening ++ e) ⟨nodes, .otherwise before arms :: frames⟩
  | loop {ts b : List Token} {nodes before : List Node} (item : Text) {list : Text}
      {source : LoopSource} {frames : List Frame} :
      Reads ts ⟨before, frames⟩ → LoopSource.read list = .ok source → Derives b nodes.reverse →
      Reads (ts ++ [.forStart item list] ++ b) ⟨nodes, .loop before item source :: frames⟩

/-- The first arm has none before it. -/
theorem continues_ifStart (d : Text) : Continues [] [.ifStart d] d :=
  fun _ n h => ⟨n, h, rfl⟩

/-- An arm that an `elif` ends joins the earlier ones. -/
theorem Continues.elseIf {earlier : List Arm} {opening a : List Token} {d e : Text}
    {condition : Condition} {children : List Node} (h : Continues earlier opening d)
    (hc : Condition.read d = .ok condition) (ha : Derives a children) :
    Continues (⟨condition, children⟩ :: earlier) (opening ++ a ++ [.terminator (.elseIf e)]) e := by
  intro tail n hn
  obtain ⟨whole, hw, hb⟩ := h _ _ (DerivesNode.ifElseIf hc ha hn)
  refine ⟨whole, ?_, hb⟩
  simpa only [List.append_assoc, List.singleton_append] using hw

/-- An arm that an `else` ends is the last. -/
theorem Continues.otherwise {earlier : List Arm} {opening a : List Token} {d : Text}
    {condition : Condition} {children : List Node} (h : Continues earlier opening d)
    (hc : Condition.read d = .ok condition) (ha : Derives a children) :
    Otherwise (⟨condition, children⟩ :: earlier) (opening ++ a ++ [.terminator .otherwise]) := by
  intro e nodes he
  obtain ⟨whole, hw, hb⟩ := h _ _ (DerivesNode.ifElse hc ha he)
  refine ⟨whole, ?_, hb⟩
  simpa only [List.append_assoc, List.singleton_append] using hw

/-- An arm that an end tag ends completes the conditional. -/
theorem Continues.endIf {earlier : List Arm} {opening a : List Token} {d : Text}
    {condition : Condition} {children : List Node} (h : Continues earlier opening d)
    (hc : Condition.read d = .ok condition) (ha : Derives a children) :
    ∃ whole, DerivesNode (opening ++ (a ++ [.terminator .endIf])) whole ∧
      branches (⟨condition, children⟩ :: earlier) [] = [whole] :=
  h _ _ (DerivesNode.ifEnd hc ha)

/-- The innermost block grows by a node that further tokens derive. -/
theorem Reads.push {ts us : List Token} {s : State} {n : Node} (h : Reads ts s)
    (k : DerivesNode us n) : Reads (ts ++ us) (s.push n) := by
  have hsnoc {vs : List Token} {nodes : List Node} (hv : Derives vs nodes.reverse) :
      Derives (vs ++ us) (n :: nodes).reverse := by
    rw [List.reverse_cons]
    exact hv.snoc k
  cases h with
  | base hd => exact Reads.base (hsnoc hd)
  | arm hr hc ho hd =>
    rw [List.append_assoc _ _ us]
    exact Reads.arm hr hc ho (hsnoc hd)
  | otherwise hr ho hd =>
    rw [List.append_assoc _ _ us]
    exact Reads.otherwise hr ho (hsnoc hd)
  | loop item hr hl hd =>
    rw [List.append_assoc _ _ us]
    exact Reads.loop item hr hl (hsnoc hd)

/-- A block that is complete is a node of the block around it. -/
theorem Reads.close {ts us : List Token} {before : List Node} {frames : List Frame} {n : Node}
    {nodes : List Node} (h : Reads ts ⟨before, frames⟩) (k : DerivesNode us n)
    (hn : nodes = [n]) : Reads (ts ++ us) ⟨nodes ++ before, frames⟩ := by
  rw [hn]
  exact h.push k

/-- An arm that is just opened has no nodes. -/
theorem Reads.openArm {ts opening : List Token} {before : List Node} {earlier : List Arm}
    {condition : Condition} {d : Text} {frames : List Frame} (h : Reads ts ⟨before, frames⟩)
    (hc : Condition.read d = .ok condition) (ho : Continues earlier opening d) :
    Reads (ts ++ opening) ⟨[], .arm before earlier condition :: frames⟩ := by
  have hnil : Derives [] ([] : List Node).reverse := Derives.nil
  rw [← List.append_nil (ts ++ opening)]
  exact Reads.arm h hc ho hnil

/-- An otherwise part that is just opened has no nodes. -/
theorem Reads.openOtherwise {ts opening : List Token} {before : List Node} {arms : List Arm}
    {frames : List Frame} (h : Reads ts ⟨before, frames⟩) (ho : Otherwise arms opening) :
    Reads (ts ++ opening) ⟨[], .otherwise before arms :: frames⟩ := by
  have hnil : Derives [] ([] : List Node).reverse := Derives.nil
  rw [← List.append_nil (ts ++ opening)]
  exact Reads.otherwise h ho hnil

/-- A loop that is just opened has no nodes. -/
theorem Reads.openLoop {ts : List Token} {before : List Node} (item : Text) {list : Text}
    {source : LoopSource} {frames : List Frame} (h : Reads ts ⟨before, frames⟩)
    (hl : LoopSource.read list = .ok source) :
    Reads (ts ++ [.forStart item list]) ⟨[], .loop before item source :: frames⟩ := by
  have hnil : Derives [] ([] : List Node).reverse := Derives.nil
  rw [← List.append_nil (ts ++ [Token.forStart item list])]
  exact Reads.loop item h hl hnil

/-- A token that continues or closes a block keeps the nodes derived. -/
theorem Reads.terminate {ts : List Token} {s s' : State} {t : Terminator} (h : Reads ts s)
    (hstep : s.terminate t = .ok s') : Reads (ts ++ [.terminator t]) s' := by
  cases h with
  | base hd => cases t <;> simp [State.terminate] at hstep
  | arm hr hc ho hd =>
    cases t with
    | elseIf e =>
      obtain ⟨next, hnext, hs⟩ := bind_eq_ok hstep
      cases hs
      have := hr.openArm hnext (ho.elseIf hc hd)
      simpa only [List.append_assoc] using this
    | otherwise =>
      cases hstep
      have := hr.openOtherwise (ho.otherwise hc hd)
      simpa only [List.append_assoc] using this
    | endIf =>
      cases hstep
      obtain ⟨whole, hw, hb⟩ := ho.endIf hc hd
      have := hr.close hw hb
      simpa only [List.append_assoc] using this
    | endFor => simp [State.terminate] at hstep
  | otherwise hr ho hd =>
    cases t with
    | endIf =>
      cases hstep
      obtain ⟨whole, hw, hb⟩ := ho _ _ hd
      have := hr.close hw hb
      simpa only [List.append_assoc] using this
    | elseIf e => simp [State.terminate] at hstep
    | otherwise => simp [State.terminate] at hstep
    | endFor => simp [State.terminate] at hstep
  | loop item hr hl hd =>
    cases t with
    | endFor =>
      cases hstep
      have := hr.push (DerivesNode.loop item hl hd)
      simpa only [List.append_assoc, List.cons_append, List.nil_append, State.push] using this
    | elseIf e => simp [State.terminate] at hstep
    | otherwise => simp [State.terminate] at hstep
    | endIf => simp [State.terminate] at hstep

/-- One token keeps the nodes of every open block derived. -/
theorem Reads.step {ts : List Token} {s s' : State} {t : Token} (h : Reads ts s)
    (hstep : s.step t = .ok s') : Reads (ts ++ [t]) s' := by
  cases t with
  | text value trim =>
    cases hstep
    exact h.push (DerivesNode.text value trim)
  | interpolation expression trim =>
    cases hstep
    exact h.push (DerivesNode.interpolation expression trim)
  | assign name expression =>
    cases hstep
    exact h.push (DerivesNode.assign name expression)
  | raise message =>
    cases hstep
    exact h.push (DerivesNode.raise message)
  | ifStart c =>
    obtain ⟨condition, hc, hs⟩ := bind_eq_ok hstep
    cases hs
    exact h.openArm hc (continues_ifStart c)
  | forStart item list =>
    obtain ⟨source, hl, hs⟩ := bind_eq_ok hstep
    cases hs
    exact h.openLoop item hl
  | terminator t => exact h.terminate hstep

/-- A run of tokens keeps the nodes of every open block derived. -/
theorem Reads.run {ts us : List Token} {s s' : State} (h : Reads ts s)
    (hrun : s.run us = .ok s') : Reads (ts ++ us) s' := by
  induction us generalizing ts s with
  | nil =>
    cases hrun
    rwa [List.append_nil]
  | cons t us ih =>
    rw [State.run_cons] at hrun
    obtain ⟨next, hstep, hrest⟩ := bind_eq_ok hrun
    have := ih (h.step hstep) hrest
    rwa [List.append_assoc] at this

/-- Tokens that make up a template derive its nodes: behind them no block is open. -/
theorem derives_of_ofTokens {ts : List Token} {ns : List Node}
    (h : Template.ofTokens ts = .ok ns) : Derives ts ns := by
  obtain ⟨s, hrun, hfinish⟩ := bind_eq_ok h
  have hstart : Reads [] State.start := .base .nil
  have hreads : Reads ts s := hstart.run hrun
  cases hreads with
  | base hd =>
    cases hfinish
    exact hd
  | arm => cases hfinish
  | otherwise => cases hfinish
  | loop => cases hfinish

end Assembly

/-- A sequence of tokens is a template exactly if it derives the nodes of the template. -/
theorem ofTokens_eq_ok_iff_derives (ts : List Token) (ns : List Node) :
    Template.ofTokens ts = .ok ns ↔ Grammar.Derives ts ns :=
  ⟨Assembly.derives_of_ofTokens, Assembly.ofTokens_of_derives⟩

end PromptTemplate
