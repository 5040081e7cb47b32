import PromptTemplate.Proofs.Template.Refusal
import PromptTemplate.Template.Rendering

/-!
# Templates in a row

A template behind another one is rendered in the context that the first leaves,
and not at all if the first fails. Nothing fails but a raise: whatever stands in
expressions, conditions and loop sources has some value, so the message of a
failure is always that of a raise somewhere in the tree, and a tree without a
raise has an output in every context.
-/

namespace PromptTemplate

/-- The outcome of a run that goes on in the context it has reached, unless it has failed. -/
def Outcome.andThen (a : Outcome) (next : Context → Outcome) : Outcome :=
  match a with
  | ⟨.ok output, c⟩ => ⟨(next c).result.map (output ++ ·), (next c).context⟩
  | ⟨.error e, c⟩ => ⟨.error e, c⟩

mutual

/-- The messages of the raises in a node, wherever they stand in it. -/
def Node.raises : Node → List Text
  | .text _ _ => []
  | .interpolation _ _ => []
  | .branch _ children otherwise => raisesOf children ++ raisesOf otherwise
  | .loop _ _ children => raisesOf children
  | .assign _ _ => []
  | .raise message => [message]

/-- The messages of the raises in nodes. -/
def raisesOf : List Node → List Text
  | [] => []
  | n :: ns => n.raises ++ raisesOf ns

end

section

variable (r : Registry) (o : Options)

/-- Behind nodes that fail nothing is rendered. -/
theorem renderAll_append_of_error {ns : List Node} {c next : Context} {e : Raised}
    (h : renderAll r o ns c = ⟨.error e, next⟩) (ms : List Node) :
    renderAll r o (ns ++ ms) c = ⟨.error e, next⟩ := by
  induction ns generalizing c with
  | nil =>
    rw [renderAll] at h
    cases h
  | cons n ns ih =>
    cases hn : n.render r o c with
    | mk result between =>
      cases result with
      | error f =>
        rw [renderAll_cons_of_error hn] at h
        rw [List.cons_append, renderAll_cons_of_error hn, h]
      | ok output =>
        rw [renderAll_cons_of_ok hn] at h
        obtain ⟨hresult, hcontext⟩ := Outcome.mk.inj h
        have hlater : renderAll r o ns between = ⟨.error e, next⟩ := by
          rw [← eq_error_of_map hresult, ← hcontext]
        rw [List.cons_append, renderAll_cons_of_ok hn, ih hlater]
        rfl

/-- Nodes in a row are rendered one run after the other. -/
theorem renderAll_append (ns ms : List Node) (c : Context) :
    renderAll r o (ns ++ ms) c = (renderAll r o ns c).andThen (renderAll r o ms) := by
  cases h : renderAll r o ns c with
  | mk result next =>
    cases result with
    | error e => exact renderAll_append_of_error r o h ms
    | ok output => exact renderAll_append_of_ok h ms

mutual

/-- A node fails only with the message of a raise in it. -/
theorem Node.message_mem_raises (n : Node) {c : Context} {e : Raised}
    (h : (n.render r o c).result = .error e) : e.message ∈ n.raises := by
  match n with
  | .text value trim => cases h
  | .interpolation expression trim => cases h
  | .branch condition children otherwise =>
    simp only [Node.render] at h
    split at h
    · exact List.mem_append_left _ (message_mem_raisesOf children h)
    · exact List.mem_append_right _ (message_mem_raisesOf otherwise h)
  | .loop item source children =>
    -- the loop fails with what one of its iterations fails with
    obtain ⟨iteration, -, hiteration⟩ := exists_eq_error_of_mapM (eq_error_of_map h)
    exact message_mem_raisesOf children hiteration
  | .assign name expression => cases h
  | .raise message =>
    cases h
    exact List.mem_singleton.2 rfl

/-- Nodes fail only with the message of a raise in one of them. -/
theorem message_mem_raisesOf (ns : List Node) {c : Context} {e : Raised}
    (h : (renderAll r o ns c).result = .error e) : e.message ∈ raisesOf ns := by
  match ns with
  | [] =>
    rw [renderAll] at h
    cases h
  | n :: ns =>
    cases hn : n.render r o c with
    | mk result next =>
      cases result with
      | error f =>
        have hfirst : (n.render r o c).result = .error e := by
          rw [renderAll_cons_of_error hn] at h
          rw [hn, h]
        exact List.mem_append_left _ (Node.message_mem_raises n hfirst)
      | ok output =>
        rw [renderAll_cons_of_ok hn] at h
        exact List.mem_append_right _ (message_mem_raisesOf ns (eq_error_of_map h))

end

/-- Rendering is sequential, and only a raise fails. Two templates in a row render like the
first and then, unless it fails, the second in the context that the first leaves. A failure
has the message of a raise in the tree, and without a raise in the tree there is an output. -/
theorem renderAll_sequence (ns : List Node) (c : Context) :
    (∀ ms, renderAll r o (ns ++ ms) c = (renderAll r o ns c).andThen (renderAll r o ms)) ∧
    (∀ e, (renderAll r o ns c).result = .error e → e.message ∈ raisesOf ns) ∧
    (raisesOf ns = [] → ∃ output, (renderAll r o ns c).result = .ok output) := by
  refine ⟨fun ms => renderAll_append r o ns ms c, fun e he => message_mem_raisesOf r o ns he,
    fun hnone => ?_⟩
  cases h : (renderAll r o ns c).result with
  | ok output => exact ⟨output, rfl⟩
  | error e =>
    have hmem := message_mem_raisesOf r o ns h
    rw [hnone] at hmem
    exact absurd hmem List.not_mem_nil

end

/-- A loop whose second iteration raises, behind an assignment, and expressions, a condition
and a loop source that are none. -/
theorem renderAll_sequence_of_raise_in_loop :
    let body : List Node :=
      [.interpolation "y".toList ⟨false, false⟩,
        .branch (.literal "y".toList) [.raise "stop".toList] []]
    let failing : List Node :=
      [.assign "y".toList "'a'".toList, .loop "y".toList (.expression "ys".toList) body]
    let lenient : List Node :=
      [.interpolation "((".toList ⟨true, false⟩, .branch (.literal "]".toList) [] [],
        .loop "y".toList (.slice (.expression "|".toList) none (some 1))
          [.interpolation "y".toList ⟨false, false⟩]]
    let c : Context := [("ys".toList, .list [.bool false, .bool true])]
    let left : Context := c ++ [("y".toList, .string "a".toList)]
    let render (ns : List Node) := renderAll Registry.empty Options.standard ns c
    render failing = ⟨.error ⟨"stop".toList⟩, left⟩ ∧
      render (failing ++ lenient) = ⟨.error ⟨"stop".toList⟩, left⟩ ∧
      "stop".toList ∈ raisesOf failing ∧ raisesOf lenient = [] ∧
      (∃ output, (render lenient).result = .ok output) ∧
      render (lenient ++ failing) = ⟨.error ⟨"stop".toList⟩, left⟩ := by
  intro body failing lenient c left render
  obtain ⟨hfirst, hmem, -⟩ := renderAll_sequence Registry.empty Options.standard failing c
  obtain ⟨hsecond, -, hok⟩ := renderAll_sequence Registry.empty Options.standard lenient c
  have hfailing : render failing = ⟨.error ⟨"stop".toList⟩, left⟩ := by with_unfolding_all rfl
  have hlenient : render lenient = ⟨.ok [], c⟩ := by with_unfolding_all rfl
  have hresult : (render failing).result = .error ⟨"stop".toList⟩ := by rw [hfailing]
  refine ⟨hfailing, (hfirst lenient).trans ?_, hmem _ hresult, rfl, hok rfl,
    (hsecond failing).trans ?_⟩
  · exact congrArg (Outcome.andThen · _) hfailing
  · refine (congrArg (Outcome.andThen · _) hlenient).trans ?_
    change (⟨(render failing).result.map ([] ++ ·), (render failing).context⟩ : Outcome) = _
    rw [hfailing]
    rfl

end PromptTemplate
