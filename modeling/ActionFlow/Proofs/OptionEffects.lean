import ActionFlow.Proofs.Mirroring

/-!
# What the options do

Each option of lowering has one effect and no other. The nesting limit decides whether a graph is
refused for its depth: at or above the depth of the graph the limit is not noticed at all, and below
it lowering fails, with the error of the limit or with one that it meets before. The terminator is
one byte behind the code: it moves no branch, changes no error, and never gets into a function body
or a clause.

For the limit, two runs are followed side by side, one under the limit and one with room enough. For
the terminator, emission is shown not to look at it, and patching is shown not to reach it.

## Main statements

- `Curbed`: a run under a limit, compared with one that has room enough; kept by sequencing.
- `Graph.curbed`: emission under a limit.
- `lowerRegion_maxDepth`: the nesting limit is an exact threshold.
- `Graph.emitEach_congr`: emission looks at two of the options only.
- `lowerRegion_terminator`: the terminator is one more byte and nothing else.
-/

namespace ActionFlow

/-! ## §1 Runs under a limit -/

/-- The error is not about nesting. -/
def LowerError.Shallow : LowerError → Prop
  | .nestingTooDeep _ => False
  | _ => True

theorem LowerError.Unwritable.shallow : ∀ e : LowerError, e.Unwritable → e.Shallow
  | .unsupported _, _ => trivial
  | .tooLarge _ _, _ => trivial

theorem shallow_sizeWord (what : String) (size : Nat) :
    FailsOnly LowerError.Shallow (sizeWord what size) :=
  (unwritable_sizeWord what size).mono LowerError.Unwritable.shallow

theorem Record.shallow_encode (r : Record) : FailsOnly LowerError.Shallow r.encode :=
  r.unwritable_encode.mono LowerError.Unwritable.shallow

theorem Region.shallow_finish (r : Region) (terminate : Bool) :
    FailsOnly LowerError.Shallow (r.finish terminate).result := by
  intro e failed
  obtain ⟨j, -, at_fault⟩ := exists_fault_of_finish failed
  rcases resolve?_eq_error_iff.mp at_fault with ⟨_, _, _, rfl⟩ | ⟨_, _, _, rfl⟩
  · trivial
  · trivial

/-- The outcome `x` of a run under a limit, and the outcome `y` of the same run with room enough,
    which has no error about nesting. If the run fits the limit, the two are the same. If not, the
    run under the limit stops: at the limit, or before it where the other one stops too. -/
structure Curbed {α : Type} (limit : Nat) (fits : Prop) (x y : Except LowerError α) : Prop where
  same : fits → x = y
  stops : ¬ fits → ∃ e, x = .error e ∧ (e = .nestingTooDeep limit ∨ y = .error e)
  roomy : FailsOnly LowerError.Shallow y

namespace Curbed

variable {α β : Type} {limit : Nat} {fits fits' : Prop} {x y : Except LowerError α}
  {f g : α → Except LowerError β}

theorem congr (h : Curbed limit fits x y) (iff : fits ↔ fits') : Curbed limit fits' x y :=
  ⟨fun fit => h.same (iff.mpr fit), fun misfit => h.stops fun fit => misfit (iff.mp fit), h.roomy⟩

theorem of_same (shallow : FailsOnly LowerError.Shallow x) (fit : fits) : Curbed limit fits x x :=
  ⟨fun _ => rfl, fun misfit => absurd fit misfit, shallow⟩

/-- A sequence fits a limit if both of its parts do. -/
theorem bind (h : Curbed limit fits x y) (hf : ∀ a, y = .ok a → Curbed limit fits' (f a) (g a)) :
    Curbed limit (fits ∧ fits') (x >>= f) (y >>= g) where
  same := by
    rintro ⟨fit, fit'⟩
    obtain rfl := h.same fit
    cases x with
    | error e => rfl
    | ok a => exact (hf a rfl).same fit'
  stops := by
    intro misfit
    by_cases fit : fits
    · -- The first part is not noticed, so it is the second one that does not fit.
      obtain rfl := h.same fit
      cases x with
      | error e => exact ⟨e, rfl, .inr rfl⟩
      | ok a => exact (hf a rfl).stops fun fit' => misfit ⟨fit, fit'⟩
    · obtain ⟨e, rfl, limited | rfl⟩ := h.stops fit
      · exact ⟨e, rfl, .inl limited⟩
      · exact ⟨e, rfl, .inr rfl⟩
  roomy := h.roomy.bind fun a ha => (hf a ha).roomy

/-- What comes first does not look at the limit. -/
theorem after (shallow : FailsOnly LowerError.Shallow x)
    (hf : ∀ a, x = .ok a → Curbed limit fits (f a) (g a)) :
    Curbed limit fits (x >>= f) (x >>= g) :=
  ((of_same shallow trivial).bind hf).congr (iff_of_eq (true_and fits))

/-- What comes last does not look at the limit. -/
theorem before (h : Curbed limit fits x y) (shallow : ∀ a, FailsOnly LowerError.Shallow (f a)) :
    Curbed limit fits (x >>= f) (y >>= f) :=
  (h.bind fun a _ => of_same (shallow a) trivial).congr (iff_of_eq (and_true fits))

theorem mapM {a? : Option α} {size : α → Nat} {room : Nat}
    (h : ∀ a ∈ a?, Curbed limit (size a ≤ room) (f a) (g a)) :
    Curbed limit (a?.elim 0 size ≤ room) (a?.mapM f) (a?.mapM g) := by
  cases a? with
  | none => exact of_same (.pure none) (Nat.zero_le room)
  | some a => exact (h a rfl).before fun b => .pure (some b)

end Curbed

/-! ## §2 Emission under a limit -/

namespace Graph

/-- Emission of the blocks under the limit of the options, compared with emission under a limit `m`
    that leaves room enough for them. -/
def CurbedEmission (o : Options) (m : Nat) (g : Graph) : Prop :=
  ∀ depth next, nesting g ≤ m - depth → Curbed o.maxDepth (nesting g ≤ o.maxDepth - depth)
    (emitBlocks o depth next g).result (emitBlocks { o with maxDepth := m } depth next g).result

variable {o : Options} {m : Nat}

/-- One level deeper there is one level less left. -/
theorem CurbedEmission.emitNested {g : Graph} (h : CurbedEmission o m g) {depth : Nat}
    (next : Option Label) (room : nesting g + 1 ≤ m - depth) :
    Curbed o.maxDepth (nesting g + 1 ≤ o.maxDepth - depth) (emitNested o depth next g)
      (emitNested { o with maxDepth := m } depth next g) := by
  -- With room enough the check passes, so only the one under the limit can fail.
  have allowed : checkDepth { o with maxDepth := m } depth = .ok () :=
    checkDepth_eq_ok_iff.mpr (show depth < m by omega)
  have checked : Curbed o.maxDepth (depth < o.maxDepth) (checkDepth o depth)
      (checkDepth { o with maxDepth := m } depth) := by
    rw [allowed]
    refine ⟨fun fit => checkDepth_eq_ok_iff.mpr fit, fun misfit => ?_, .ok _⟩
    exact ⟨_, if_neg misfit, .inl rfl⟩
  apply (checked.bind fun _ _ => h (depth + 1) next (by omega)).congr
  omega

theorem curbed_emitActions {actions : List Action}
    (bodies : ∀ f, Action.define f ∈ actions → CurbedEmission o m f.body) {depth : Nat}
    (room : actionsNesting actions ≤ m - depth) :
    Curbed o.maxDepth (actionsNesting actions ≤ o.maxDepth - depth)
      (emitActions o depth actions).result
      (emitActions { o with maxDepth := m } depth actions).result := by
  induction actions with
  | nil => exact .of_same (.ok _) (Nat.zero_le _)
  | cons a rest ih =>
    rcases a with i | ⟨header, body⟩
    · rw [actionsNesting] at room ⊢
      have behind := ih (fun f hf => bodies f (List.mem_cons_of_mem _ hf)) room
      rw [result_emitActions_plain, result_emitActions_plain]
      apply Curbed.after (Record.shallow_encode _)
      intro code _
      exact behind.before fun _ => .pure _
    · rw [actionsNesting, Nat.max_le] at room
      have behind := ih (fun f hf => bodies f (List.mem_cons_of_mem _ hf)) room.2
      have own := (bodies ⟨header, body⟩ List.mem_cons_self).emitNested none room.1
      rw [actionsNesting, Nat.max_le, result_emitActions_define, result_emitActions_define]
      apply own.bind
      intro region _
      -- The body is finished before the rest is looked at.
      apply Curbed.after (region.shallow_finish false)
      intro bodyCode _
      apply Curbed.after (shallow_sizeWord _ _)
      intro size _
      apply Curbed.after (Record.shallow_encode _)
      intro code _
      exact behind.before fun _ => .pure _

theorem curbed_emitFlow {flow : Flow} (clauses : ∀ c ∈ flow.clauses, CurbedEmission o m c)
    {depth : Nat} (room : flowNesting flow ≤ m - depth) (next : Option Label) (block : Block) :
    Curbed o.maxDepth (flowNesting flow ≤ o.maxDepth - depth)
      (emitFlow o depth next block flow).result
      (emitFlow { o with maxDepth := m } depth next block flow).result := by
  cases flow with
  | simple target =>
    rw [emitFlow, emitFlow]
    split
    · exact .of_same (.ok _) (Nat.zero_le _)
    · exact .of_same (.ok _) (Nat.zero_le _)
  | branch onTrue onFalse => exact .of_same (.ok _) (Nat.zero_le _)
  | broken note => exact .of_same (.ok _) (Nat.zero_le _)
  | leave | raise | waitForFrame | waitForFrame2 =>
    rw [emitFlow, emitFlow, Traced.result_bind, Traced.result_liftM]
    exact .of_same ((Record.shallow_encode _).bind fun _ _ => .pure _) (Nat.zero_le _)
  | within body =>
    rw [flowNesting] at room ⊢
    rw [result_emitFlow_within, result_emitFlow_within]
    apply ((clauses body (by simp [Flow.clauses])).emitNested next room).before
    intro region
    refine (shallow_sizeWord _ _).bind fun _ _ => ?_
    exact (Record.shallow_encode _).bind fun _ _ => .pure _
  | protect t =>
    obtain ⟨body, handler, finalizer⟩ := t
    rw [flowNesting_protect, Nat.max_le, Nat.max_le] at room ⊢
    rw [result_emitFlow_protect, result_emitFlow_protect]
    obtain ⟨room_body, room_handler, room_finalizer⟩ := room
    obtain ⟨in_body, in_handler, in_finalizer⟩ := Flow.forall_clauses_protect clauses
    -- The clauses count their depth from the same level, one after the other.
    apply (in_body.emitNested _ room_body).bind
    intro bodyRegion _
    apply Curbed.bind
    · apply Curbed.mapM
      rintro h rfl
      exact ((in_handler h rfl).emitNested _ room_handler).before fun _ => .pure _
    intro handlerRegion _
    apply Curbed.before
    · apply Curbed.mapM
      rintro c rfl
      exact (in_finalizer c rfl).emitNested _ room_finalizer
    intro finalizerRegion
    refine (shallow_sizeWord _ _).bind fun _ _ => ?_
    refine FailsOnly.bind (.mapM fun _ _ => (shallow_sizeWord _ _).bind fun _ _ => .pure _)
      fun _ _ => ?_
    refine FailsOnly.bind (.mapM fun _ _ => shallow_sizeWord _ _) fun _ _ => ?_
    exact (Record.shallow_encode _).bind fun _ _ => .pure _

/-- Emission under a limit goes as emission with room enough, up to where it does not fit. -/
theorem curbed (o : Options) (m : Nat) (g : Graph) : CurbedEmission o m g := by
  induction g using induction with
  | nil => exact fun depth next _ => .of_same (.ok _) (Nat.zero_le _)
  | cons label actions flow rest bodies_ih clauses_ih rest_ih =>
    intro depth next room
    rw [nesting, Nat.max_le, Nat.max_le] at room ⊢
    obtain ⟨⟨room_actions, room_flow⟩, room_rest⟩ := room
    rw [result_emitBlocks_cons, result_emitBlocks_cons, and_assoc]
    apply (curbed_emitActions bodies_ih room_actions).bind
    intro code _
    apply (curbed_emitFlow clauses_ih room_flow _ _).bind
    intro exit _
    exact (rest_ih depth next room_rest).before fun _ => .pure _

end Graph

theorem curbed_lowerRegion (g : Graph) (terminate : Bool) (o : Options) {m : Nat}
    (room : Graph.nesting g ≤ m) :
    Curbed o.maxDepth (Graph.nesting g ≤ o.maxDepth) (lowerRegion g terminate o)
      (lowerRegion g terminate { o with maxDepth := m }) := by
  rw [lowerRegion, lowerRegion, lowerRegionTraced, lowerRegionTraced, Traced.result_bind,
    Traced.result_bind]
  exact (Graph.curbed o m g 0 none room).before fun region => region.shallow_finish terminate

/-- The nesting limit is an exact threshold. From the depth of the graph on it makes no difference,
    and the error of the limit does not come up. Below that depth lowering fails, with the error of
    the limit or with an error that it meets without the limit too. -/
theorem lowerRegion_maxDepth (g : Graph) (terminate : Bool) (o : Options) (m : Nat) :
    (Graph.nesting g ≤ m →
        lowerRegion g terminate { o with maxDepth := m }
          = lowerRegion g terminate { o with maxDepth := Graph.nesting g }
        ∧ ∀ d, lowerRegion g terminate { o with maxDepth := m } ≠ .error (.nestingTooDeep d))
      ∧ (m < Graph.nesting g → ∃ e, lowerRegion g terminate { o with maxDepth := m } = .error e
        ∧ (e = .nestingTooDeep m
          ∨ lowerRegion g terminate { o with maxDepth := Graph.nesting g } = .error e))
      ∧ ∀ d, lowerRegion g terminate { o with maxDepth := m } = .error (.nestingTooDeep d) →
        d = m ∧ m < Graph.nesting g := by
  have run := curbed_lowerRegion g terminate { o with maxDepth := m } (Nat.le_refl _)
  have never : ∀ d, lowerRegion g terminate { o with maxDepth := Graph.nesting g }
      ≠ .error (.nestingTooDeep d) := fun d failed => run.roomy _ failed
  refine ⟨?_, ?_, ?_⟩
  · intro fits
    have same := run.same fits
    exact ⟨same, fun d => same ▸ never d⟩
  · intro short
    exact run.stops (Nat.not_le.mpr short)
  · intro d failed
    -- With room enough there is no such error, so the graph does not fit, and the limit was met.
    have misfit : ¬ Graph.nesting g ≤ m := fun fits => never d (run.same fits ▸ failed)
    obtain ⟨e, failed', limited | other⟩ := run.stops misfit
    · obtain rfl := Except.error.inj (failed.symm.trans failed')
      exact ⟨by injection limited, Nat.not_le.mp misfit⟩
    · obtain rfl := Except.error.inj (failed.symm.trans failed')
      exact absurd other (never d)

theorem guardedLoop_maxDepth :
    (∃ code, lowerRegion guardedLoop true {} = .ok code
        ∧ lowerRegion guardedLoop true { maxDepth := 2 } = .ok code)
      ∧ lowerRegion guardedLoop true { maxDepth := 1 } = .error (.nestingTooDeep 1)
      ∧ 1 < Graph.nesting guardedLoop := by
  have depth_eq : Graph.nesting guardedLoop = 2 := by decide +kernel
  have failed : lowerRegion guardedLoop true { maxDepth := 1 } = .error (.nestingTooDeep 1) := by
    decide +kernel
  obtain ⟨above, -⟩ := lowerRegion_maxDepth guardedLoop true {} 256
  obtain ⟨same, -⟩ := above (by omega)
  obtain ⟨-, -, exact_limit⟩ := lowerRegion_maxDepth guardedLoop true {} 1
  rw [depth_eq] at same
  exact ⟨⟨_, lowerRegion_guardedLoop, same ▸ lowerRegion_guardedLoop⟩, failed,
    (exact_limit 1 failed).2⟩

/-! ## §3 The terminator -/

namespace Region

/-- The stop action behind a region is out of reach of its patches. -/
theorem Patchable.finish_terminated {r : Region} (hr : r.Patchable) :
    (r.finish true).result = (r.finish false).result.map (· ++ [0x00]) := by
  have inside : ∀ p ∈ (r.patches r.size).1, p.site + 2 ≤ r.code.length :=
    hr.fits_of_mem_patches r.size
  rw [result_finish, result_finish]
  -- Both runs make the same patches, since the end of the region does not count the stop action.
  rcases patches_eq : r.patches r.size with ⟨ps, _ | e⟩
  · rw [patches_eq] at inside
    show Except.ok (Patch.applyAll ps (r.code ++ [0x00]))
      = Except.ok (Patch.applyAll ps (r.code ++ []) ++ [0x00])
    rw [Patch.applyAll_eq_foldl, Patch.applyAll_eq_foldl, List.append_nil,
      Patch.foldl_apply_append_left _ inside]
  · rfl

end Region

namespace Graph

/-- Emission of the blocks is the same with both options. -/
def EmittedAlike (o o' : Options) (g : Graph) : Prop :=
  ∀ depth next, emitEach o depth next g = emitEach o' depth next g

variable {o o' : Options}

theorem checkDepth_congr (limit : o.maxDepth = o'.maxDepth) (depth : Nat) :
    checkDepth o depth = checkDepth o' depth := by
  rw [checkDepth, checkDepth, limit]

theorem emitActions_congr (limit : o.maxDepth = o'.maxDepth) {actions : List Action}
    (bodies : ∀ f, Action.define f ∈ actions → EmittedAlike o o' f.body) (depth : Nat) :
    emitActions o depth actions = emitActions o' depth actions := by
  induction actions with
  | nil => rfl
  | cons a rest ih =>
    have behind := ih fun f hf => bodies f (List.mem_cons_of_mem _ hf)
    rcases a with i | ⟨header, body⟩
    · rw [emitActions, emitActions, behind]
    · have own := bodies ⟨header, body⟩ List.mem_cons_self
      rw [emitActions, emitActions, behind, own, checkDepth_congr limit]

theorem emitFlow_congr (tail : o.suppressUnreachableTail = o'.suppressUnreachableTail)
    (limit : o.maxDepth = o'.maxDepth) {flow : Flow}
    (clauses : ∀ c ∈ flow.clauses, EmittedAlike o o' c) (depth : Nat) (next : Option Label)
    (block : Block) :
    emitFlow o depth next block flow = emitFlow o' depth next block flow := by
  cases flow with
  | simple target => rw [emitFlow, emitFlow, tail]
  | within body =>
    have own := clauses body (by simp [Flow.clauses])
    rw [emitFlow, emitFlow, own, checkDepth_congr limit]
  | protect t =>
    obtain ⟨body, handler, finalizer⟩ := t
    obtain ⟨in_body, in_handler, in_finalizer⟩ := Flow.forall_clauses_protect clauses
    unfold EmittedAlike at in_body in_handler in_finalizer
    rcases handler with _ | ⟨target, clause⟩ <;> rcases finalizer with _ | finish
    all_goals
      simp only [Option.mem_def, Option.some.injEq, forall_eq', reduceCtorEq, false_imp_iff]
        at in_handler in_finalizer
      rw [emitFlow, emitFlow]
      simp only [in_body, in_handler, in_finalizer, checkDepth_congr limit]
  | _ => rfl

/-- Of the options, emission looks at the suppression and at the nesting limit only. -/
theorem emitEach_congr (tail : o.suppressUnreachableTail = o'.suppressUnreachableTail)
    (limit : o.maxDepth = o'.maxDepth) (g : Graph) : EmittedAlike o o' g := by
  induction g using induction with
  | nil => exact fun _ _ => rfl
  | cons label actions flow rest bodies_ih clauses_ih rest_ih =>
    intro depth next
    rw [emitEach, emitEach, emitActions_congr limit bodies_ih, emitFlow_congr tail limit clauses_ih,
      rest_ih]

end Graph

theorem lowerRegion_terminated (g : Graph) (o : Options) :
    lowerRegion g true o = (lowerRegion g false o).map (· ++ [0x00]) := by
  rw [lowerRegion, lowerRegion, lowerRegionTraced, lowerRegionTraced, Traced.result_bind,
    Traced.result_bind]
  cases emitted : (emitBlocks o 0 none g).result with
  | error e => rfl
  | ok region => exact (patchable_of_emitBlocks emitted).finish_terminated

theorem lowerRegion_appendTerminator (g : Graph) (terminate asked : Bool) (o : Options) :
    lowerRegion g terminate { o with appendTerminator := asked } = lowerRegion g terminate o := by
  have alike : Graph.EmittedAlike { o with appendTerminator := asked } o g := by
    apply Graph.emitEach_congr
    · rfl
    · rfl
  rw [lowerRegion, lowerRegion, lowerRegionTraced, lowerRegionTraced, emitBlocks, emitBlocks, alike]

/-- The terminator is one byte behind the code and nothing else: with it and without it lowering
    succeeds on the same graphs, with the same bytes before it, and fails with the same errors. The
    option that asks for it has no other effect either: nothing inside the graph gets one. -/
theorem lowerRegion_terminator (g : Graph) (o : Options) :
    lowerRegion g true o = (lowerRegion g false o).map (· ++ [0x00])
      ∧ lower g { o with appendTerminator := true }
        = (lower g { o with appendTerminator := false }).map (· ++ [0x00]) := by
  refine ⟨lowerRegion_terminated g o, ?_⟩
  rw [lower_eq, lower_eq]
  -- The check of the labels comes first, and does not look at the terminator.
  show ((if o.validate then g.validate else .ok ()) >>= fun _ =>
      lowerRegion g true { o with appendTerminator := true })
    = Except.map _ ((if o.validate then g.validate else .ok ()) >>= fun _ =>
      lowerRegion g false { o with appendTerminator := false })
  rw [lowerRegion_appendTerminator g true true, lowerRegion_appendTerminator g false false,
    lowerRegion_terminated]
  cases if o.validate then g.validate else .ok () with
  | error e => rfl
  | ok u => rfl

end ActionFlow
