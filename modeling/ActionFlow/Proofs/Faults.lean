import ActionFlow.Proofs.Patching

/-!
# Where errors come from

Lowering fails for two kinds of reasons. Something that was to be written has no encoding, is too
large or is nested too deep: such an error is local, and it can come up at any point. Or a branch
cannot be resolved: such an error has the offset of the branch, and it comes up only when a region
is finished that was emitted whole. Here every error of the second kind is traced back to its
region, which is the graph itself or a function body at any depth.

## Main statements

- `FailsOnly`: the errors of a computation have a property; kept by sequencing.
- `Graph.FaultyAlone`: finishing the region of a graph fails with a given error.
- `Graph.failsBelow`: the faults of emission are those of function bodies.
- `failsOnly_lowerRegion`: the faults of lowering are those of regions.
-/

namespace ActionFlow

/-! ## §1 The errors of a computation -/

/-- If a computation fails, then with an error that has the property. -/
def FailsOnly {α : Type} (P : LowerError → Prop) (x : Except LowerError α) : Prop :=
  ∀ e, x = .error e → P e

namespace FailsOnly

variable {α β : Type} {P Q : LowerError → Prop} {x : Except LowerError α}

theorem ok (a : α) : FailsOnly P (.ok a) := by
  intro e h
  cases h

theorem pure (a : α) : FailsOnly P (pure a : Except LowerError α) := ok a

theorem error {e : LowerError} (h : P e) : FailsOnly P (.error e : Except LowerError α) := by
  rintro e' ⟨⟩
  exact h

theorem mono (hx : FailsOnly P x) (weaker : ∀ e, P e → Q e) : FailsOnly Q x :=
  fun e h => weaker e (hx e h)

theorem bind {f : α → Except LowerError β} (hx : FailsOnly P x)
    (hf : ∀ a, x = .ok a → FailsOnly P (f a)) : FailsOnly P (x >>= f) := by
  intro e h
  cases x with
  | error e' =>
    obtain rfl : e' = e := Except.error.inj h
    exact hx e' rfl
  | ok a => exact hf a rfl e h

theorem mapM {f : α → Except LowerError β} {a? : Option α}
    (hf : ∀ a ∈ a?, FailsOnly P (f a)) : FailsOnly P (a?.mapM f) := by
  cases a? with
  | none => exact pure none
  | some a => exact (hf a rfl).bind fun b _ => pure (some b)

end FailsOnly

/-! ## §2 Local errors -/

/-- The error is about one thing that was to be written, and neither about a label nor about a
    branch. -/
def LowerError.Local : LowerError → Prop
  | .unsupported _ => True
  | .tooLarge _ _ => True
  | .nestingTooDeep _ => True
  | _ => False

/-- The error is about something that was to be written and has no encoding or is too large. -/
def LowerError.Unwritable : LowerError → Prop
  | .unsupported _ => True
  | .tooLarge _ _ => True
  | _ => False

theorem LowerError.Unwritable.isLocal : ∀ e : LowerError, e.Unwritable → e.Local
  | .unsupported _, _ => trivial
  | .tooLarge _ _, _ => trivial

theorem unwritable_sizeWord (what : String) (size : Nat) :
    FailsOnly LowerError.Unwritable (sizeWord what size) := by
  unfold sizeWord
  split
  · exact .ok _
  · exact .error trivial

theorem Record.unwritable_payload (r : Record) : FailsOnly LowerError.Unwritable r.payload := by
  cases r with
  | action a =>
    rcases a with i | f
    · cases i with
      | constantPool pool => exact (unwritable_sizeWord _ _).bind fun _ _ => .pure _
      | _ => exact .pure _
    · exact .pure _
  | function header size =>
    cases header with
    | classic name parameters => exact (unwritable_sizeWord _ _).bind fun _ _ => .pure _
    | registers name count flags parameters =>
      exact (unwritable_sizeWord _ _).bind fun _ _ => .pure _
  | _ => exact .pure _

theorem Record.unwritable_tail (r : Record) : FailsOnly LowerError.Unwritable r.tail := by
  unfold tail
  split
  · split
    · exact .ok _
    · exact .error trivial
  · exact r.unwritable_payload.bind fun _ _ => (unwritable_sizeWord _ _).bind fun _ _ => .pure _

theorem Record.unwritable_encode (r : Record) : FailsOnly LowerError.Unwritable r.encode := by
  unfold encode write
  cases r.unencodable? with
  | some construct => exact .error trivial
  | none =>
    have tail := r.unwritable_tail
    cases h : r.tail with
    | ok rest => exact .ok _
    | error e => exact .error (tail e h)

theorem failsOnly_sizeWord (what : String) (size : Nat) :
    FailsOnly LowerError.Local (sizeWord what size) :=
  (unwritable_sizeWord what size).mono LowerError.Unwritable.isLocal

theorem Record.failsOnly_encode (r : Record) : FailsOnly LowerError.Local r.encode :=
  r.unwritable_encode.mono LowerError.Unwritable.isLocal

theorem failsOnly_checkDepth (o : Options) (depth : Nat) :
    FailsOnly LowerError.Local (checkDepth o depth) := by
  unfold checkDepth
  split
  · exact .ok _
  · exact .error trivial

/-! ## §3 The faults of regions -/

namespace Region

variable {r : Region} {terminate : Bool}

theorem exists_fault_of_finish {e : LowerError} (failed : (r.finish terminate).result = .error e) :
    ∃ j ∈ r.openJumps, resolve? r.offset? r.size j = .error e := by
  rw [result_finish] at failed
  apply exists_fault_of_resolveAll
  rw [← patches_eq_resolveAll]
  split at failed
  · cases failed
  next patches_eq =>
    rw [patches_eq]
    exact congrArg some (Except.error.inj failed)

/-- A label that is not found is the target of a branch, and no block has it. -/
theorem exists_jump_of_labelNotFound {l : Label} {site : Nat}
    (failed : (r.finish terminate).result = .error (.labelNotFound l site)) :
    ∃ j ∈ r.openJumps, j.target = some l ∧ r.offset? l = none := by
  obtain ⟨j, hj, at_fault⟩ := exists_fault_of_finish failed
  rcases resolve?_eq_error_iff.mp at_fault with ⟨k, target_eq, not_defined, same⟩ | ⟨_, _, _, other⟩
  · obtain rfl : l = k := by injection same
    exact ⟨j, hj, target_eq, not_defined⟩
  · cases other

end Region

namespace Graph

/-- The region of the graph can be emitted, but finishing it fails. -/
def FaultyAlone (o : Options) (g : Graph) (e : LowerError) : Prop :=
  ∃ depth region terminate, (emitBlocks o depth none g).result = .ok region
    ∧ (region.finish terminate).result = .error e

/-- The error is local, or it is the fault of one of the regions. -/
def Explains (o : Options) (rs : List Graph) (e : LowerError) : Prop :=
  e.Local ∨ ∃ r ∈ rs, FaultyAlone o r e

theorem Explains.mono {o : Options} {rs rs' : List Graph} (h : rs ⊆ rs') {e : LowerError}
    (he : Explains o rs e) : Explains o rs' e := by
  rcases he with of_record | ⟨r, hr, fault⟩
  · exact .inl of_record
  · exact .inr ⟨r, h hr, fault⟩

/-- Emission of the graph fails only with an error of one of the regions below it. -/
def FailsBelow (o : Options) (g : Graph) : Prop :=
  ∀ depth next, FailsOnly (Explains o (innerRegions g)) (emitBlocks o depth next g).result

section

variable {o : Options} {rs : List Graph}

theorem failsOnly_of_local {α : Type} {x : Except LowerError α}
    (h : FailsOnly LowerError.Local x) : FailsOnly (Explains o rs) x :=
  h.mono fun _ of_record => .inl of_record

theorem FailsBelow.emitNested {g : Graph} (h : FailsBelow o g) (sub : innerRegions g ⊆ rs)
    (depth : Nat) (next : Option Label) :
    FailsOnly (Explains o rs) (emitNested o depth next g) := by
  refine (failsOnly_of_local (failsOnly_checkDepth o depth)).bind fun _ _ => ?_
  exact (h (depth + 1) next).mono fun _ => Explains.mono sub

theorem failsOnly_emitActions {actions : List Action}
    (bodies : ∀ f, Action.define f ∈ actions → FailsBelow o f.body) (depth : Nat) :
    FailsOnly (Explains o (actionRegions actions)) (emitActions o depth actions).result := by
  induction actions with
  | nil => exact .ok _
  | cons a rest ih =>
    have behind := ih fun f hf => bodies f (List.mem_cons_of_mem _ hf)
    rcases a with i | ⟨header, body⟩
    · rw [result_emitActions_plain, actionRegions]
      refine (failsOnly_of_local (Record.failsOnly_encode _)).bind fun _ _ => ?_
      exact behind.bind fun _ _ => .pure _
    · rw [result_emitActions_define]
      have in_body : body :: innerRegions body ⊆ actionRegions (.define ⟨header, body⟩ :: rest) := by
        simp [actionRegions]
      have in_rest : actionRegions rest ⊆ actionRegions (.define ⟨header, body⟩ :: rest) := by
        simp [actionRegions]
      have own := bodies ⟨header, body⟩ List.mem_cons_self
      refine (own.emitNested (fun _ h => in_body (List.mem_cons_of_mem _ h)) depth none).bind
        fun region emitted => ?_
      obtain ⟨_, -, emitted⟩ := bind_eq_ok_iff.mp emitted
      -- The body was emitted whole, so whatever finishing it reports is a fault of its own.
      have finished : FailsOnly (Explains o (actionRegions (.define ⟨header, body⟩ :: rest)))
          (region.finish false).result := fun e fault =>
        .inr ⟨body, in_body List.mem_cons_self, depth + 1, region, false, emitted, fault⟩
      refine finished.bind fun _ _ => (failsOnly_of_local (failsOnly_sizeWord _ _)).bind
        fun _ _ => (failsOnly_of_local (Record.failsOnly_encode _)).bind fun _ _ => ?_
      exact (behind.mono fun _ => Explains.mono in_rest).bind fun _ _ => .pure _

theorem failsOnly_emitFlow {flow : Flow} (clauses : ∀ c ∈ flow.clauses, FailsBelow o c)
    (depth : Nat) (next : Option Label) (block : Block) :
    FailsOnly (Explains o (flowRegions flow)) (emitFlow o depth next block flow).result := by
  have in_clause : ∀ c ∈ flow.clauses, innerRegions c ⊆ flowRegions flow := by
    intro c hc r hr
    rw [flowRegions_eq_flatMap, List.mem_flatMap]
    exact ⟨c, List.mem_reverse.mpr hc, hr⟩
  -- What follows a clause matters for its code, but not for where its errors come from.
  have nested : ∀ c ∈ flow.clauses, ∀ next,
      FailsOnly (Explains o (flowRegions flow)) (emitNested o depth next c) := by
    intro c hc next
    exact (clauses c hc).emitNested (in_clause c hc) depth next
  have sized : ∀ what size, FailsOnly (Explains o (flowRegions flow)) (sizeWord what size) :=
    fun what size => failsOnly_of_local (failsOnly_sizeWord what size)
  have encoded : ∀ r : Record, FailsOnly (Explains o (flowRegions flow)) r.encode :=
    fun r => failsOnly_of_local r.failsOnly_encode
  cases flow with
  | simple target =>
    rw [emitFlow]
    split
    · exact .ok _
    · exact .ok _
  | branch onTrue onFalse => exact .ok _
  | broken note => exact .ok _
  | leave =>
    rw [emitFlow, Traced.result_bind, Traced.result_liftM]
    exact (encoded _).bind fun _ _ => .ok _
  | raise =>
    rw [emitFlow, Traced.result_bind, Traced.result_liftM]
    exact (encoded _).bind fun _ _ => .ok _
  | waitForFrame frame ready loading =>
    rw [emitFlow, Traced.result_bind, Traced.result_liftM]
    exact (encoded _).bind fun _ _ => .ok _
  | waitForFrame2 ready loading =>
    rw [emitFlow, Traced.result_bind, Traced.result_liftM]
    exact (encoded _).bind fun _ _ => .ok _
  | within body =>
    rw [result_emitFlow_within]
    apply (nested body (by simp [Flow.clauses]) next).bind
    intro region _
    exact (sized _ _).bind fun _ _ => (encoded _).bind fun _ _ => .pure _
  | protect t =>
    obtain ⟨body, handler, finalizer⟩ := t
    have in_handler : ∀ h ∈ handler, h.body ∈ (Flow.protect ⟨body, handler, finalizer⟩).clauses := by
      rintro h rfl
      simp [Flow.clauses, TryScope.handlerBlocks]
    have in_finalizer : ∀ c ∈ finalizer, c ∈ (Flow.protect ⟨body, handler, finalizer⟩).clauses := by
      rintro c rfl
      simp [Flow.clauses, TryScope.finalizerBlocks]
    rw [result_emitFlow_protect]
    -- First the clauses, in the order in which they are written.
    apply (nested body (by simp [Flow.clauses]) _).bind
    intro bodyRegion _
    apply FailsOnly.bind
    · exact .mapM fun h hh => (nested h.body (in_handler h hh) _).bind fun _ _ => .pure _
    intro handlerRegion _
    apply FailsOnly.bind
    · exact .mapM fun c hc => nested c (in_finalizer c hc) _
    intro finalizerRegion _
    -- Then their sizes, and the header.
    apply (sized _ _).bind
    intro bodySize _
    apply FailsOnly.bind
    · exact .mapM fun x _ => (sized _ _).bind fun _ _ => .pure _
    intro handlerSize _
    apply FailsOnly.bind
    · exact .mapM fun r _ => sized _ _
    intro finalizerSize _
    exact (encoded _).bind fun _ _ => .pure _

end

/-- Emission fails only with an error of one of the function bodies in the graph. -/
theorem failsBelow (o : Options) (g : Graph) : FailsBelow o g := by
  induction g using induction with
  | nil =>
    intro depth next
    rw [result_emitBlocks_nil]
    exact .ok _
  | cons label actions flow rest bodies_ih clauses_ih rest_ih =>
    intro depth next
    rw [result_emitBlocks_cons]
    have in_actions : actionRegions actions ⊆ innerRegions (⟨label, actions, flow⟩ :: rest) := by
      simp [innerRegions]
    have in_flow : flowRegions flow ⊆ innerRegions (⟨label, actions, flow⟩ :: rest) := by
      simp [innerRegions]
    have in_rest : innerRegions rest ⊆ innerRegions (⟨label, actions, flow⟩ :: rest) := by
      simp [innerRegions]
    apply ((failsOnly_emitActions bodies_ih depth).mono fun _ => Explains.mono in_actions).bind
    intro code _
    apply ((failsOnly_emitFlow clauses_ih depth _ _).mono fun _ => Explains.mono in_flow).bind
    intro exit _
    exact ((rest_ih depth next).mono fun _ => Explains.mono in_rest).bind fun _ _ => .pure _

end Graph

/-- Lowering fails only with an error of one of the regions of the graph. -/
theorem failsOnly_lowerRegion (g : Graph) (terminate : Bool) (o : Options) :
    FailsOnly (Graph.Explains o (Graph.regions g)) (lowerRegion g terminate o) := by
  rw [lowerRegion, lowerRegionTraced, Traced.result_bind]
  apply ((Graph.failsBelow o g 0 none).mono fun _ => Graph.Explains.mono (List.subset_cons_self _ _)).bind
  intro region emitted e fault
  exact .inr ⟨g, List.mem_cons_self, 0, region, terminate, emitted, fault⟩

end ActionFlow
