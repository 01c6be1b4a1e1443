import ActionFlow.Document
import ActionFlow.Proofs.Clauses
import ActionFlow.Proofs.Json.Decoders

/-!
# Documents are read back

The document of a graph is read back as the graph. Each part of a graph is written as a value in
which the decoder for that part finds it, so the whole graph is found by induction over the graphs
inside it. The reader needs room for the lists and objects of the document, and the levels of the
schema are never used up before the room is.

Pushed numbers with a floating point are left out: they are written in decimal.

## Main statements

- `Graph.NoFloats`: nothing in the graph pushes a number with a floating point.
- `Schema.finds_instruction`, `Schema.finds_define`, `Schema.finds_flow`: the parts of a block.
- `Schema.finds_blocks`: the blocks of a graph are found in their values.
- `Document.ofText_render`: the document of a graph holds the graph.
-/

namespace ActionFlow

open Json

/-! ## §1 Graphs without floating point -/

/-- Whether an operand is a number with a floating point. -/
def Operand.isFloat : Operand → Bool
  | single _ => true
  | double _ => true
  | _ => false

/-- Whether an action pushes a number with a floating point. -/
def Action.pushesFloat : Action → Bool
  | plain (.push values) => values.any Operand.isFloat
  | _ => false

/-- Nothing in the graph pushes a number with a floating point, at any depth. -/
def Graph.NoFloats (g : Graph) : Prop :=
  ∀ b ∈ g.everyBlock, ∀ a ∈ b.actions, a.pushesFloat = false

instance (g : Graph) : Decidable g.NoFloats :=
  inferInstanceAs (Decidable (∀ b ∈ g.everyBlock, ∀ a ∈ b.actions, a.pushesFloat = false))

namespace Graph.NoFloats

variable {label : Label} {actions : List Action} {flow : Flow} {rest : List Block}

theorem head (h : NoFloats (⟨label, actions, flow⟩ :: rest)) :
    ∀ a ∈ actions, a.pushesFloat = false :=
  h ⟨label, actions, flow⟩ (mem_everyBlock_cons.mpr (.inl rfl))

theorem function (h : NoFloats (⟨label, actions, flow⟩ :: rest)) {f : Function}
    (defined : Action.define f ∈ actions) : NoFloats f.body := by
  intro b hb
  exact h b (mem_everyBlock_cons.mpr (.inr (.inl ⟨f, defined, hb⟩)))

theorem clause (h : NoFloats (⟨label, actions, flow⟩ :: rest)) {c : Graph}
    (mem : c ∈ flow.clauses) : NoFloats c := by
  intro b hb
  exact h b (mem_everyBlock_cons.mpr (.inr (.inr (.inl ⟨c, mem, hb⟩))))

theorem behind (h : NoFloats (⟨label, actions, flow⟩ :: rest)) : NoFloats rest := by
  intro b hb
  exact h b (mem_everyBlock_cons.mpr (.inr (.inr (.inr hb))))

end Graph.NoFloats

namespace Schema

open Decoder (finds_text finds_boolean finds_uint8 finds_uint16 finds_int32 finds_none finds_map)
open Shape (Holds)

/-! ## §2 Parts that hold no blocks -/

theorem finds_label (l : Label) : label.Finds l.toValue l :=
  (finds_text l.text).map Label.mk

theorem finds_optionalLabel (l : Option Label) :
    (Decoder.option label).Finds (Label.optionToValue l) l := by
  cases l with
  | none => exact finds_none
  | some l => exact (finds_label l).some (by simp [Label.toValue, Value.chars, textChars])

theorem finds_optionalText (s : Option String) :
    (Decoder.option Decoder.text).Finds (optionalText s) s := by
  cases s with
  | none => exact finds_none
  | some s => exact (finds_text s).some (by simp [Value.chars, textChars])

theorem finds_texts (ss : List String) :
    (Decoder.list Decoder.text).Finds (.list (ss.map .text)) ss :=
  finds_map fun s _ => finds_text s

theorem finds_operand {o : Operand} (exact : o.isFloat = false) : operand.Finds o.toValue o := by
  cases o with
  | boolean b => exact AdjacentTagged.finds_payload rfl rfl (by decide) ((finds_boolean b).map _)
  | constant c => exact AdjacentTagged.finds_payload rfl rfl (by decide) ((finds_uint16 c).map _)
  | single x => cases exact
  | double x => cases exact
  | null => exact AdjacentTagged.finds_unit rfl rfl
  | register r => exact AdjacentTagged.finds_payload rfl rfl (by decide) ((finds_uint8 r).map _)
  | integer n => exact AdjacentTagged.finds_payload rfl rfl (by decide) ((finds_int32 n).map _)
  | text s => exact AdjacentTagged.finds_payload rfl rfl (by decide) ((finds_text s).map _)
  | undefined => exact AdjacentTagged.finds_unit rfl rfl

theorem finds_catchTarget (t : CatchTarget) : catchTarget.Finds t.toValue t := by
  cases t with
  | register r => exact AdjacentTagged.finds_payload rfl rfl (by decide) ((finds_uint8 r).map _)
  | named name => exact AdjacentTagged.finds_payload rfl rfl (by decide) ((finds_text name).map _)

theorem finds_urlMethod (m : UrlMethod) : urlMethod.Finds m.toValue m := by
  have bound : m.code.toNat < (UrlMethod.all.map UrlMethod.name).length := by
    cases m <;> decide
  have tagged : (Tag.name (UrlMethod.all.map UrlMethod.name)).Finds m.toValue
      ⟨m.code.toNat, bound⟩ := Tag.finds_name (by cases m <;> rfl)
  cases m <;> exact tagged.map _

theorem finds_parameter (p : Parameter) : parameter.Finds p.toValue p := by
  obtain ⟨register, name⟩ := p
  refine Holds.decoder (Holds.map (x := (register, name)) _ ?_) _
  exact .field_both (finds_uint8 register) (by simp) (.field (finds_text name))

theorem finds_functionFlags (f : FunctionFlags) : functionFlags.Finds f.toValue f := by
  obtain ⟨a, b, c, d, e, f, g, h, i⟩ := f
  -- All flags are written, so no default is used.
  refine Holds.decoder (Holds.map (x := (a, b, c, d, e, f, g, h, i)) _ ?_) _
  exact .optional_both (finds_boolean a) (by simp) <| .optional_both (finds_boolean b) (by simp) <|
    .optional_both (finds_boolean c) (by simp) <| .optional_both (finds_boolean d) (by simp) <|
    .optional_both (finds_boolean e) (by simp) <| .optional_both (finds_boolean f) (by simp) <|
    .optional_both (finds_boolean g) (by simp) <| .optional_both (finds_boolean h) (by simp) <|
    .optional (finds_boolean i)

/-! ## §3 Actions -/

theorem finds_operation (g : Decoder Graph) (o : Op) :
    (action g).Finds (taggedObject "action" o.name []) (.plain (.op o)) := by
  unfold action
  cases o <;> exact InnerTagged.finds_unit rfl rfl

/-- No field of an instruction has the name of the tag. -/
theorem untagged_instruction (i : Instruction) : ∀ e ∈ i.entries.2, e.1 ≠ "action" := by
  cases i <;> simp [Instruction.entries]

theorem finds_instruction (g : Decoder Graph) {i : Instruction}
    (exact : (Action.plain i).pushesFloat = false) :
    (action g).Finds (actionValue (.plain i)) (.plain i) := by
  have untagged := untagged_instruction i
  cases i with
  | op o => exact finds_operation g o
  | constantPool pool =>
    exact InnerTagged.finds_record rfl rfl untagged (.map _ (.map _ (.field (finds_texts pool))))
  | error note =>
    exact InnerTagged.finds_record rfl rfl untagged
      (.map _ (.map _ (.optional (finds_optionalText note))))
  | getUrl url target =>
    refine InnerTagged.finds_record rfl rfl untagged (.map _ (.map (x := (url, target)) _ ?_))
    exact .field_both (finds_text url) (by simp) (.field (finds_text target))
  | getUrl2 method loadTarget loadVariables =>
    refine InnerTagged.finds_record rfl rfl untagged
      (.map _ (.map (x := (method, loadTarget, loadVariables)) _ ?_))
    exact .optional_both (finds_urlMethod method) (by simp) <|
      .optional_both (finds_boolean loadTarget) (by simp) (.optional (finds_boolean loadVariables))
  | gotoFrame frame =>
    exact InnerTagged.finds_record rfl rfl untagged (.map _ (.map _ (.field (finds_uint16 frame))))
  | gotoFrame2 play sceneBias =>
    refine InnerTagged.finds_record rfl rfl untagged (.map _ (.map (x := (play, sceneBias)) _ ?_))
    exact .field_both (finds_boolean play) (by simp) (.optional (finds_uint16 sceneBias))
  | gotoLabel label =>
    exact InnerTagged.finds_record rfl rfl untagged (.map _ (.map _ (.field (finds_text label))))
  | push values =>
    have operands : (Decoder.list operand).Finds (.list (values.map Operand.toValue)) values :=
      finds_map fun o ho => finds_operand (by simpa using List.any_eq_false.mp exact o ho)
    exact InnerTagged.finds_record rfl rfl untagged (.map _ (.map _ (.field operands)))
  | raw code data =>
    refine InnerTagged.finds_record rfl rfl untagged (.map _ (.map (x := (code, data)) _ ?_))
    exact .field_both (finds_uint8 code) (by simp) (.optional (finds_map fun b _ => finds_uint8 b))
  | setTarget name =>
    exact InnerTagged.finds_record rfl rfl untagged (.map _ (.map _ (.field (finds_text name))))
  | storeRegister index =>
    exact InnerTagged.finds_record rfl rfl untagged (.map _ (.map _ (.field (finds_uint8 index))))
  | strictMode strict =>
    exact InnerTagged.finds_record rfl rfl untagged
      (.map _ (.map _ (.field (finds_boolean strict))))

/-! ## §4 Parts that hold blocks -/

section Nested

variable {g : Decoder Graph}

theorem finds_define {f : Function} (body : g.Finds (graphValue (blockValues f.body)) f.body) :
    (action g).Finds (actionValue (.define f)) (.define f) := by
  obtain ⟨header, blocks⟩ := f
  cases header with
  | classic name parameters =>
    refine InnerTagged.finds_record rfl rfl (by simp [functionEntries, FunctionHeader.entries])
      (.map _ (.map (x := (name, parameters, blocks)) _ ?_))
    exact .optional_both (finds_text name) (by simp) <|
      .optional_both (finds_texts parameters) (by simp) (.field body)
  | registers name registerCount flags parameters =>
    refine InnerTagged.finds_record rfl rfl (by simp [functionEntries, FunctionHeader.entries])
      (.map _ (.map (x := (name, registerCount, flags, parameters, blocks)) _ ?_))
    exact .optional_both (finds_text name) (by simp) <|
      .field_both (finds_uint8 registerCount) (by simp) <|
      .optional_both (finds_functionFlags flags) (by simp) <|
      .optional_both (finds_map fun p _ => finds_parameter p) (by simp) (.field body)

theorem finds_handler {h : Handler} (body : g.Finds (graphValue (blockValues h.body)) h.body) :
    (handler g).Finds (handlerValue h) h := by
  obtain ⟨target, blocks⟩ := h
  refine Holds.decoder (.map (x := (target, blocks)) _ ?_) _
  exact .field_both (finds_catchTarget target) (by simp) (.field body)

/-- The fields of a try, with null for a clause that is absent. -/
theorem tryEntries_eq (t : TryScope) :
    tryEntries t = [("try", graphValue (blockValues t.body)),
      ("catch", (t.handler.map handlerValue).getD .null),
      ("finally", (t.finalizer.map fun c => graphValue (blockValues c)).getD .null)] := by
  obtain ⟨body, handler, finalizer⟩ := t
  cases handler <;> cases finalizer <;> rfl

/-- The clauses of a try are found, if the graphs of those that are there are found. -/
theorem holds_tryShape {t : TryScope} (body : g.Finds (graphValue (blockValues t.body)) t.body)
    (handled : ∀ h ∈ t.handler, g.Finds (graphValue (blockValues h.body)) h.body)
    (finalized : ∀ c ∈ t.finalizer, g.Finds (graphValue (blockValues c)) c) :
    (tryShape g).Holds (tryEntries t) t := by
  rw [tryEntries_eq]
  obtain ⟨blocks, clause, finish⟩ := t
  refine .map (x := (blocks, clause, finish)) _ ?_
  refine .field_both body (by simp) (.optional_both ?_ (by simp) (.optional ?_))
  · cases clause with
    | none => exact finds_none
    | some h =>
      obtain ⟨target, caught⟩ := h
      exact (finds_handler (handled ⟨target, caught⟩ rfl)).some
        (by simp [handlerValue, Value.chars])
  · cases finish with
    | none => exact finds_none
    | some c => exact (finalized c rfl).some (by simp [graphValue, Value.chars])

theorem finds_flow {f : Flow}
    (clauses : ∀ c ∈ f.clauses, g.Finds (graphValue (blockValues c)) c) :
    (flow g).Finds (flowValue f) f := by
  cases f with
  | simple next =>
    exact InnerTagged.finds_record rfl rfl (by simp) (.map _ (.optional (finds_optionalLabel next)))
  | branch onTrue onFalse =>
    refine InnerTagged.finds_record rfl rfl (by simp) (.map (x := (onTrue, onFalse)) _ ?_)
    exact .field_both (finds_label onTrue) (by simp) (.optional (finds_optionalLabel onFalse))
  | leave => exact InnerTagged.finds_unit rfl rfl
  | raise => exact InnerTagged.finds_unit rfl rfl
  | broken note =>
    exact InnerTagged.finds_record rfl rfl (by simp) (.map _ (.optional (finds_optionalText note)))
  | protect t =>
    have untagged : ∀ e ∈ tryEntries t, e.1 ≠ "type" := by
      simp [tryEntries_eq]
    refine InnerTagged.finds_record rfl rfl untagged (.map _ (holds_tryShape ?_ ?_ ?_))
    · exact clauses t.body (by simp [Flow.clauses])
    · -- The clauses of a flow are listed with empty graphs for absent ones.
      intro h hh
      have blocks_eq : t.handlerBlocks = h.body := by
        rw [TryScope.handlerBlocks, Option.mem_def.mp hh]
        rfl
      rw [← blocks_eq]
      exact clauses _ (by simp [Flow.clauses])
    · intro c hc
      have blocks_eq : t.finalizerBlocks = c := by
        rw [TryScope.finalizerBlocks, Option.mem_def.mp hc]
        rfl
      rw [← blocks_eq]
      exact clauses _ (by simp [Flow.clauses])
  | within body =>
    exact InnerTagged.finds_record rfl rfl (by simp)
      (.map _ (.field (clauses body (by simp [Flow.clauses]))))
  | waitForFrame frame ready loading =>
    refine InnerTagged.finds_record rfl rfl (by simp) (.map (x := (frame, ready, loading)) _ ?_)
    exact .field_both (finds_uint16 frame) (by simp) <|
      .field_both (finds_label ready) (by simp) (.field (finds_label loading))
  | waitForFrame2 ready loading =>
    refine InnerTagged.finds_record rfl rfl (by simp) (.map (x := (ready, loading)) _ ?_)
    exact .field_both (finds_label ready) (by simp) (.field (finds_label loading))

theorem actionValues_eq_map (actions : List Action) :
    actionValues actions = actions.map actionValue := by
  induction actions with
  | nil => rfl
  | cons a actions ih => rw [actionValues, ih, List.map_cons]

theorem finds_block {label : Label} {actions : List Action} {f : Flow}
    (acts : List.Forall₂ (action g).Finds (actionValues actions) actions)
    (flows : (flow g).Finds (flowValue f) f) :
    (block g).Finds (blockValue ⟨label, actions, f⟩) ⟨label, actions, f⟩ := by
  refine Holds.decoder (.map (x := (label, actions, f)) _ ?_) _
  exact .field_both (finds_label label) (by simp) <|
    .optional_both (Decoder.finds_list acts) (by simp) (.field flows)

end Nested

theorem finds_graph {levels : Nat} {blocks : Graph}
    (each : List.Forall₂ (block (graph levels)).Finds (blockValues blocks) blocks) :
    (graph (levels + 1)).Finds (graphValue (blockValues blocks)) blocks :=
  (Holds.field (Decoder.finds_list each)).decoder _

/-! ## §5 Room for the graphs inside a graph -/

theorem depth_graphValue (blocks : List Value) :
    (graphValue blocks).depth = Value.itemsDepth blocks + 2 := by
  simp [graphValue, Value.depth, Value.entriesDepth]

theorem depth_function_le {actions : List Action} {f : Function}
    (defined : Action.define f ∈ actions) :
    (graphValue (blockValues f.body)).depth ≤ Value.itemsDepth (actionValues actions) := by
  induction actions with
  | nil => cases defined
  | cons a actions ih =>
    rw [actionValues, Value.itemsDepth]
    rcases List.mem_cons.mp defined with rfl | later
    · obtain ⟨header, body⟩ := f
      have mem : ("body", graphValue (blockValues body)) ∈ functionEntries ⟨header, body⟩ := by
        simp [functionEntries]
      have inside := Value.depth_le_entriesDepth mem
      simp only [actionValue, taggedObject, Value.depth, Value.entriesDepth]
      omega
    · exact (ih later).trans (le_max_right _ _)

/-- An absent clause counts as an empty graph, which is not nested deeper than the body of a try. -/
theorem depth_clause_le {f : Flow} {c : Graph} (mem : c ∈ f.clauses) :
    (graphValue (blockValues c)).depth ≤ (flowValue f).depth := by
  cases f with
  | within body =>
    obtain rfl : c = body := by simpa [Flow.clauses] using mem
    simp [flowValue, taggedObject, Value.depth, Value.entriesDepth]
  | protect t =>
    have entries_le : ∀ e ∈ tryEntries t, e.2.depth ≤ (flowValue (.protect t)).depth := by
      rintro ⟨k, v⟩ mem
      have inside := Value.depth_le_entriesDepth mem
      simp only [flowValue, taggedObject, Value.depth, Value.entriesDepth]
      omega
    rw [tryEntries_eq] at entries_le
    simp only [List.forall_mem_cons] at entries_le
    obtain ⟨body_le, handler_le, finalizer_le, -⟩ := entries_le
    obtain ⟨body, handler, finalizer⟩ := t
    have empty_le :
        (graphValue (blockValues [])).depth ≤ (graphValue (blockValues body)).depth := by
      simp [depth_graphValue, blockValues, Value.itemsDepth]
    simp only [Flow.clauses, List.mem_cons, List.not_mem_nil, or_false] at mem
    rcases mem with rfl | rfl | rfl
    · exact body_le
    · rcases handler with _ | ⟨target, caught⟩
      · exact empty_le.trans body_le
      · refine le_trans ?_ handler_le
        simp [TryScope.handlerBlocks, handlerValue, Value.depth, Value.entriesDepth]
        omega
    · rcases finalizer with _ | finish
      · exact empty_le.trans body_le
      · exact finalizer_le
  | _ => simp [Flow.clauses] at mem

/-! ## §6 Graphs -/

/-- A graph inside another is found at every level that leaves room for it. -/
theorem finds_nested {c : Graph} {levels : Nat}
    (blocks : ∀ {levels : Nat}, Value.itemsDepth (blockValues c) ≤ levels →
      List.Forall₂ (block (graph levels)).Finds (blockValues c) c)
    (fits : (graphValue (blockValues c)).depth ≤ levels) :
    (graph levels).Finds (graphValue (blockValues c)) c := by
  -- A level of the schema is used up for the two brackets around the blocks.
  rw [depth_graphValue] at fits
  cases levels with
  | zero => omega
  | succ levels => exact finds_graph (blocks (by omega))

/-- The blocks of a graph are found in their values. -/
theorem finds_blocks (blocks : Graph) : blocks.NoFloats → ∀ {levels : Nat},
    Value.itemsDepth (blockValues blocks) ≤ levels →
      List.Forall₂ (block (graph levels)).Finds (blockValues blocks) blocks := by
  -- The induction is over function bodies, clauses and the blocks behind; the bound on the depth
  -- is generalized, as each graph inside is found with the levels that are left for it.
  induction blocks using Graph.induction with
  | nil => exact fun _ _ _ => .nil
  | cons label actions f rest bodies clauses behind =>
    intro exact levels fits
    rw [blockValues, Value.itemsDepth, max_le_iff] at fits
    obtain ⟨block_fits, rest_fits⟩ := fits
    have parts :
        Value.itemsDepth (actionValues actions) ≤ levels ∧ (flowValue f).depth ≤ levels := by
      simp only [blockValue, Value.depth, Value.entriesDepth] at block_fits
      omega
    refine .cons (finds_block ?_ (finds_flow ?_)) (behind exact.behind rest_fits)
    · -- Only the definition of a function holds blocks.
      rw [actionValues_eq_map, List.forall₂_map_left_iff, List.forall₂_same]
      intro a ha
      cases a with
      | plain i => exact finds_instruction _ (exact.head _ ha)
      | define d =>
        exact finds_define (finds_nested (fun {_} => bodies d ha (exact.function ha))
          ((depth_function_le ha).trans parts.1))
    · intro c hc
      exact finds_nested (fun {_} => clauses c hc (exact.clause hc))
        ((depth_clause_le hc).trans parts.2)

end Schema

/-- The document of a graph is read back as the graph, if nothing in the graph pushes a number with
    a floating point and the document is not nested deeper than documents may be. -/
theorem Document.ofText_render {g : Graph} (exact : g.NoFloats)
    (shallow : g.toValue.depth ≤ Schema.nestingLimit) (name : String) :
    Document.ofText name g.render = .ok ⟨name, "", g⟩ := by
  have found : Schema.document.Finds g.toValue g :=
    Schema.finds_nested (Schema.finds_blocks g exact) (shallow.trans (Nat.le_succ _))
  have parsed : Document.parsePart Schema.document g.render = .ok g := found.parse shallow
  simp only [Document.ofText, parsed]

/-- A graph whose texts need every kind of escape, with a function and a try that has an empty catch
    clause. -/
def awkwardTexts : Graph :=
  [⟨⟨"say \"yes\" \\ \u0001 ☃"⟩,
      [.plain (.push [.text "\n\t\r", .integer (-1), .constant 65535, .boolean false, .null]),
        .define ⟨.registers "naïve" 3 { preloadThis := true } [⟨1, "\u007f"⟩],
          [⟨⟨""⟩, [], .leave⟩]⟩,
        .plain (.getUrl2 .post true false), .plain (.error none)],
      .protect ⟨[⟨⟨"body"⟩, [], .simple none⟩], some ⟨.named "", []⟩, none⟩⟩]

theorem ofText_render_awkwardTexts :
    awkwardTexts.NoFloats ∧ awkwardTexts.toValue.depth ≤ Schema.nestingLimit
      ∧ Document.ofText "awkward" awkwardTexts.render = .ok ⟨"awkward", "", awkwardTexts⟩ := by
  have exact : awkwardTexts.NoFloats := by decide
  have shallow : awkwardTexts.toValue.depth ≤ Schema.nestingLimit := by decide
  exact ⟨exact, shallow, Document.ofText_render exact shallow "awkward"⟩

end ActionFlow
