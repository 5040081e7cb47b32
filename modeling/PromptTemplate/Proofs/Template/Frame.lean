import PromptTemplate.Proofs.Dict
import PromptTemplate.Template.Rendering

/-!
# What rendering leaves in its context

Rendering changes a context only by assignments outside loops: the context at
the end is the one at the start with such names inserted one after the other,
wherever the run ends. So every other name keeps its value, the names that were
there keep their order, and what an iteration of a loop binds is never seen
behind the loop.
-/

namespace PromptTemplate

mutual

/-- The names that a node can bind for the nodes behind it. The body of a loop binds in
copies only. -/
def Node.targets : Node → List Text
  | .text _ _ => []
  | .interpolation _ _ => []
  | .branch _ children otherwise => targetsOf children ++ targetsOf otherwise
  | .loop _ _ _ => []
  | .assign name _ => [name]
  | .raise _ => []

/-- The names that nodes can bind for the nodes behind them. -/
def targetsOf : List Node → List Text
  | [] => []
  | n :: ns => n.targets ++ targetsOf ns

end

/-- A context is another one in which names of a list were bound, one after the other. -/
def Context.BindsOnly (names : List Text) (c next : Context) : Prop :=
  ∃ bindings : List (Text × Value), next = Dict.insertAll c bindings ∧
    ∀ x ∈ Dict.keys bindings, x ∈ names

namespace Context.BindsOnly

variable {names others : List Text} {c d e : Context}

theorem refl (names : List Text) (c : Context) : BindsOnly names c c :=
  ⟨[], rfl, fun _ hx => absurd hx List.not_mem_nil⟩

/-- One binding. -/
theorem insert {x : Text} (h : x ∈ names) (c : Context) (v : Value) :
    BindsOnly names c (Dict.insert c x v) := by
  refine ⟨[(x, v)], rfl, fun y hy => ?_⟩
  obtain rfl : y = x := List.mem_singleton.1 hy
  exact h

theorem mono (h : BindsOnly names c d) (hs : ∀ x ∈ names, x ∈ others) : BindsOnly others c d := by
  obtain ⟨bindings, hd, hnames⟩ := h
  exact ⟨bindings, hd, fun x hx => hs x (hnames x hx)⟩

/-- First these bindings, then those. -/
theorem trans (h : BindsOnly names c d) (h' : BindsOnly names d e) : BindsOnly names c e := by
  obtain ⟨first, rfl, hfirst⟩ := h
  obtain ⟨later, rfl, hlater⟩ := h'
  refine ⟨first ++ later, ?_, fun x hx => ?_⟩
  · simp only [Dict.insertAll, List.foldl_append]
  · simp only [Dict.keys, List.map_append, List.mem_append] at hx
    rcases hx with hx | hx
    · exact hfirst x hx
    · exact hlater x hx

/-- Without names there is nothing to bind. -/
theorem eq_of_nil (h : BindsOnly [] c d) : d = c := by
  obtain ⟨bindings, rfl, hnames⟩ := h
  cases bindings with
  | nil => rfl
  | cons b bindings => exact absurd (hnames b.1 List.mem_cons_self) List.not_mem_nil

end Context.BindsOnly

section

variable (r : Registry) (o : Options)

mutual

/-- A node binds its targets only, whether it renders or raises. -/
theorem Node.render_bindsOnly (n : Node) (c : Context) :
    Context.BindsOnly n.targets c (n.render r o c).context := by
  match n with
  | .text value trim => exact .refl _ c
  | .interpolation expression trim => exact .refl _ c
  | .branch condition children otherwise =>
    simp only [Node.render, Node.targets]
    split
    · exact (renderAll_bindsOnly children c).mono fun x hx => List.mem_append_left _ hx
    · exact (renderAll_bindsOnly otherwise c).mono fun x hx => List.mem_append_right _ hx
  | .loop item source children => exact .refl _ c
  | .assign name expression => exact .insert List.mem_cons_self c _
  | .raise message => exact .refl _ c

/-- Nodes bind their targets only: each takes the context that the one before left, and
the run ends with what the last one left. -/
theorem renderAll_bindsOnly (ns : List Node) (c : Context) :
    Context.BindsOnly (targetsOf ns) c (renderAll r o ns c).context := by
  match ns with
  | [] => exact .refl _ c
  | n :: ns =>
    have hfirst : Context.BindsOnly (targetsOf (n :: ns)) c (n.render r o c).context :=
      (Node.render_bindsOnly n c).mono fun x hx => List.mem_append_left _ hx
    cases hn : n.render r o c with
    | mk result next =>
      rw [hn] at hfirst
      cases result with
      | error e =>
        rw [renderAll_cons_of_error hn]
        exact hfirst
      | ok output =>
        have hlater : Context.BindsOnly (targetsOf (n :: ns)) next
            (renderAll r o ns next).context :=
          (renderAll_bindsOnly ns next).mono fun x hx => List.mem_append_right _ hx
        rw [renderAll_cons_of_ok hn]
        exact hfirst.trans hlater

end

end

/-- Whether a run ends with output or with a raise: a name that no assignment outside loops
targets has the value that it had, or none; the names stand in the order in which they
stood, and behind them only targets that were not bound; and without such targets, so
behind a loop however it ends, the context is the one from before. -/
theorem renderAll_frame (r : Registry) (o : Options) (ns : List Node) (c : Context) :
    let next := (renderAll r o ns c).context
    (∀ x, x ∉ targetsOf ns → Dict.get? next x = Dict.get? c x) ∧
    (∃ added, Dict.keys next = Dict.keys c ++ added ∧
      ∀ x ∈ added, x ∈ targetsOf ns ∧ x ∉ Dict.keys c) ∧
    (targetsOf ns = [] → next = c) ∧
    (∀ item source children, (renderAll r o [.loop item source children] c).context = c) := by
  have hbinds := renderAll_bindsOnly r o ns c
  refine ⟨?_, ?_, fun h => ?_, fun item source children => ?_⟩
  · obtain ⟨bindings, hnext, hnames⟩ := hbinds
    intro x hx
    rw [hnext]
    exact Dict.get?_insertAll_of_not_mem fun hb => hx (hnames x hb)
  · obtain ⟨bindings, hnext, hnames⟩ := hbinds
    obtain ⟨added, hkeys, hadded⟩ := Dict.keys_insertAll c bindings
    rw [hnext]
    exact ⟨added, hkeys, fun x hx => ⟨hnames x (hadded x hx).1, (hadded x hx).2⟩⟩
  · rw [h] at hbinds
    exact hbinds.eq_of_nil
  · exact (renderAll_bindsOnly r o [.loop item source children] c).eq_of_nil

/-- A loop that assigns before it raises, in a branch that assigns before the loop. -/
theorem renderAll_frame_of_raise_in_loop :
    let loop : Node :=
      .loop "x".toList (.expression "xs".toList)
        [.assign "seen".toList "x".toList, .raise "stop".toList]
    let ns : List Node :=
      [.branch (.literal "true".toList) [.assign "y".toList "x".toList, loop] [],
        .assign "z".toList "y".toList]
    let c : Context :=
      [("x".toList, .bool true), ("xs".toList, .list [.null, .bool false])]
    let next := (renderAll Registry.empty Options.standard ns c).context
    Dict.get? next "x".toList = some (.bool true) ∧ Dict.get? next "seen".toList = none ∧
      Dict.get? next "loop".toList = none ∧
      (renderAll Registry.empty Options.standard [.raise [], loop] c).context = c := by
  intro loop ns c next
  obtain ⟨hkept, -, -, -⟩ := renderAll_frame Registry.empty Options.standard ns c
  obtain ⟨-, -, hsame, -⟩ := renderAll_frame Registry.empty Options.standard [.raise [], loop] c
  exact ⟨hkept "x".toList (by decide), hkept "seen".toList (by decide),
    hkept "loop".toList (by decide), hsame rfl⟩

end PromptTemplate
