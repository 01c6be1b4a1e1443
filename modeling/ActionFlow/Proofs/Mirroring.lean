import ActionFlow.Proofs.Renaming

/-!
# Label texts carry no meaning

Labels are only compared. If the labels of each region are renamed one-to-one, lowering writes the
same bytes, and if it fails, it fails in the same way, with the label of the error renamed as in the
region that is to blame. The two runs are followed side by side: each step of the one has the same
outcome as the step of the other, up to renaming.

## Main statements

- `Mirrors`: two computations have the same outcome, up to renaming; kept by sequencing.
- `Region.mirrors_finish`: a renamed region is finished in the same way.
- `Graph.mirrored`: emission of a renamed graph mirrors that of the graph.
- `Graph.repeatsBelow`: the regions of a renamed graph repeat labels where those of the graph do.
- `lower_rename`: lowering a renamed graph mirrors lowering the graph.
-/

namespace ActionFlow

/-! ## §1 Outcomes that mirror each other -/

/-- Two computations with the same outcome: the values are related by a function, the errors by a
    relation. -/
inductive Mirrors {α β : Type} (f : α → β) (Q : LowerError → LowerError → Prop) :
    Except LowerError α → Except LowerError β → Prop
  | ok (a : α) : Mirrors f Q (.ok a) (.ok (f a))
  | error {e e' : LowerError} (h : Q e e') : Mirrors f Q (.error e) (.error e')

namespace Mirrors

variable {α β γ δ : Type} {f : α → β} {g : γ → δ} {Q Q' : LowerError → LowerError → Prop}
  {x : Except LowerError α} {y : Except LowerError β}

theorem mono (h : Mirrors f Q x y) (weaker : ∀ e e', x = .error e → Q e e' → Q' e e') :
    Mirrors f Q' x y := by
  cases h with
  | ok a => exact .ok a
  | error related => exact .error (weaker _ _ rfl related)

theorem bind {k : α → Except LowerError γ} {k' : β → Except LowerError δ} (h : Mirrors f Q x y)
    (hk : ∀ a, x = .ok a → Mirrors g Q (k a) (k' (f a))) : Mirrors g Q (x >>= k) (y >>= k') := by
  cases h with
  | ok a => exact hk a rfl
  | error related => exact .error related

theorem of_eq {a : α} {b : β} (h : b = f a) :
    Mirrors f Q (pure a : Except LowerError α) (pure b : Except LowerError β) :=
  h ▸ .ok a

/-- A computation mirrors itself if its errors do. -/
theorem same {P : LowerError → Prop} (h : FailsOnly P x) (reflexive : ∀ e, P e → Q e e) :
    Mirrors id Q x x := by
  cases x with
  | ok a => exact .ok a
  | error e => exact .error (reflexive e (h e rfl))

theorem eq_ok {a : α} (h : Mirrors f Q (.ok a) y) : y = .ok (f a) := by
  cases h
  rfl

theorem exists_eq_error {e : LowerError} (h : Mirrors f Q (.error e) y) :
    ∃ e', y = .error e' ∧ Q e e' := by
  cases h with
  | error related => exact ⟨_, rfl, related⟩

theorem mapM {k : α → Except LowerError γ} {k' : β → Except LowerError δ} {a? : Option α}
    (h : ∀ a ∈ a?, Mirrors g Q (k a) (k' (f a))) :
    Mirrors (Option.map g) Q (a?.mapM k) ((a?.map f).mapM k') := by
  cases a? with
  | none => exact .ok none
  | some a =>
    apply (h a rfl).bind
    intro c _
    exact .ok (some c)

end Mirrors

/-- A region that was renamed is finished as before, with the same bytes or the same fault. -/
theorem Region.mirrors_finish {f : Label → Label} (inj : Function.Injective f) (r : Region)
    (terminate : Bool) :
    Mirrors id (fun e e' => e' = e.rename f) (r.finish terminate).result
      ((r.rename f).finish terminate).result := by
  rw [result_finish, result_finish, size_rename, patches_rename inj]
  rcases r.patches r.size with ⟨ps, _ | e⟩
  · exact .ok _
  · exact .error rfl

/-! ## §2 Emission -/

namespace Graph

/-- Two errors, of a graph and of the graph with its labels renamed. One that is local is the same
    in both; the fault of a function body has its label renamed as in that body. -/
def Follows (o : Options) (σ : Renaming) (bodies : List Graph) (k : Nat) (e e' : LowerError) : Prop :=
  e.Local ∧ e' = e ∨ ∃ path r, Located bodies k path r ∧ FaultyAlone o r e
    ∧ e' = e.rename (σ.map path)

section

variable {o : Options} {σ : Renaming} {bodies bodies' : List Graph} {k k' : Nat}
  {e e' : LowerError}

theorem Follows.mono (sub : ∀ path r, Located bodies k path r → Located bodies' k' path r)
    (h : Follows o σ bodies k e e') : Follows o σ bodies' k' e e' := by
  rcases h with same | ⟨path, r, at_path, fault, renamed⟩
  · exact .inl same
  · exact .inr ⟨path, r, sub path r at_path, fault, renamed⟩

theorem Follows.enter {body : Graph} (h : Follows o (σ.inside k) (functionBodies body) 0 e e') :
    Follows o σ (body :: bodies) k e e' := by
  rcases h with same | ⟨path, r, at_path, fault, renamed⟩
  · exact .inl same
  · exact .inr ⟨k :: path, r, .of_regionAt? at_path.regionAt?_eq, fault, renamed⟩

theorem mirrors_of_local {α : Type} {x : Except LowerError α} (h : FailsOnly LowerError.Local x) :
    Mirrors id (Follows o σ bodies k) x x :=
  .same h fun _ of_record => .inl ⟨of_record, rfl⟩

theorem mirrors_mapM_of_local {α β γ : Type} {f : α → β} {step : α → Except LowerError γ}
    {step' : β → Except LowerError γ} {a? : Option α} (same : ∀ a, step' (f a) = step a)
    (h : ∀ a, FailsOnly LowerError.Local (step a)) :
    Mirrors id (Follows o σ bodies k) (a?.mapM step) ((a?.map f).mapM step') := by
  cases a? with
  | none => exact .ok none
  | some a =>
    have once : Mirrors id (Follows o σ bodies k) (step a) (step' (f a)) := by
      rw [same]
      exact mirrors_of_local (h a)
    apply once.bind
    intro c _
    exact .ok (some c)

/-- Emission of the renamed blocks gives the renamed region, or the same error. -/
def Mirrored (o : Options) (g : Graph) : Prop :=
  ∀ σ k depth next, Mirrors (Region.rename σ.own) (Follows o σ (functionBodies g) k)
    (emitBlocks o depth next g).result
    (emitBlocks o depth (next.map σ.own) (renameBlocks σ k g)).result

theorem Mirrored.emitNested {c : Graph} (h : Mirrored o c) {j : Nat}
    (sub : ∀ path r, Located (functionBodies c) j path r → Located bodies k path r)
    (depth : Nat) (next : Option Label) :
    Mirrors (Region.rename σ.own) (Follows o σ bodies k) (emitNested o depth next c)
      (emitNested o depth (next.map σ.own) (renameBlocks σ j c)) := by
  apply (mirrors_of_local (failsOnly_checkDepth o depth)).bind
  intro _ _
  exact (h σ j (depth + 1) next).mono fun _ _ _ => Follows.mono sub

theorem mirrors_emitActions {actions : List Action}
    (mirrored : ∀ f, Action.define f ∈ actions → Mirrored o f.body) (k depth : Nat) :
    Mirrors id (Follows o σ (actionBodies actions) k) (emitActions o depth actions).result
      (emitActions o depth (renameActions σ k actions)).result := by
  induction actions generalizing k with
  | nil => exact .ok []
  | cons a rest ih =>
    have behind := ih fun f hf => mirrored f (List.mem_cons_of_mem _ hf)
    rcases a with i | ⟨header, body⟩
    · rw [renameActions, result_emitActions_plain, result_emitActions_plain]
      apply (mirrors_of_local (Record.failsOnly_encode _)).bind
      intro code _
      apply (behind k).bind
      intro codeBehind _
      exact .ok _
    · rw [renameActions, result_emitActions_define, result_emitActions_define]
      have own := mirrored ⟨header, body⟩ List.mem_cons_self
      have emitted : Mirrors (Region.rename (σ.inside k).own) (Follows o σ (body :: actionBodies rest) k)
          (emitNested o depth none body)
          (emitNested o depth none (renameBlocks (σ.inside k) 0 body)) :=
        (own.emitNested (fun _ _ h => h) depth none).mono fun _ _ _ => Follows.enter
      apply emitted.bind
      intro region region_emitted
      obtain ⟨_, -, body_emitted⟩ := bind_eq_ok_iff.mp region_emitted
      -- The body is finished as a region of its own: a fault there is renamed as its labels are.
      have finished : Mirrors id (Follows o σ (body :: actionBodies rest) k)
          (region.finish false).result ((region.rename (σ.inside k).own).finish false).result := by
        apply (region.mirrors_finish (σ.inside k).own_injective false).mono
        intro e e' failed renamed
        exact .inr ⟨[k], body, .of_regionAt? rfl, ⟨depth + 1, region, false, body_emitted, failed⟩,
          renamed⟩
      apply finished.bind
      intro bodyCode _
      apply (mirrors_of_local (failsOnly_sizeWord _ _)).bind
      intro size _
      apply (mirrors_of_local (Record.failsOnly_encode _)).bind
      intro code _
      have in_rest : ∀ path r, Located (actionBodies rest) (k + 1) path r →
          Located ([body] ++ actionBodies rest) k path r := fun path r h => h.append_left
      apply ((behind (k + 1)).mono fun _ _ _ => Follows.mono in_rest).bind
      intro codeBehind _
      exact .ok _

theorem mirrors_emitFlow_protect {body : List Block} {handler : Option Handler}
    {finalizer : Option (List Block)} (mirrored_body : Mirrored o body)
    (mirrored_handler : ∀ h ∈ handler, Mirrored o h.body)
    (mirrored_finalizer : ∀ c ∈ finalizer, Mirrored o c) (k depth : Nat) (next : Option Label)
    (block block' : Block) :
    Mirrors (Region.rename σ.own) (Follows o σ (flowBodies (.protect ⟨body, handler, finalizer⟩)) k)
      (emitFlow o depth next block (.protect ⟨body, handler, finalizer⟩)).result
      (emitFlow o depth (next.map σ.own) block'
        (renameFlow σ k (.protect ⟨body, handler, finalizer⟩))).result := by
  rw [renameFlow_protect, result_emitFlow_protect, result_emitFlow_protect]
  have sub := located_clauses ⟨body, handler, finalizer⟩ k
  generalize k + (functionBodies body).length = inHandler at sub ⊢
  generalize inHandler
    + (functionBodies (TryScope.handlerBlocks ⟨body, handler, finalizer⟩)).length = inFinalizer
    at sub ⊢
  generalize flowBodies (.protect ⟨body, handler, finalizer⟩) = bodies at sub ⊢
  -- Each clause is followed by the renamed label.
  have handler_next := clauseNext_renameBlocks σ inFinalizer finalizer next
  have body_next := clauseNext_renameBlocks σ inHandler (handler.map Handler.body)
    (clauseNext finalizer next)
  rw [Option.map_map] at body_next
  simp only [handler_next, Option.map_map]
  generalize clauseNext finalizer next = handlerNext at body_next ⊢
  -- First the clauses, in the order in which they are written.
  have in_body : Mirrors (Region.rename σ.own) (Follows o σ bodies k)
      (emitNested o depth (clauseNext (handler.map Handler.body) handlerNext) body)
      (emitNested o depth (clauseNext (handler.map (renameBlocks σ inHandler ∘ Handler.body))
        (handlerNext.map σ.own)) (renameBlocks σ k body)) := by
    rw [body_next]
    exact mirrored_body.emitNested (fun path r => (sub path r).1) depth _
  apply in_body.bind
  intro bodyRegion _
  have in_handler : ∀ h ∈ handler, Mirrors (fun y => (y.1, y.2.rename σ.own)) (Follows o σ bodies k)
      (emitNested o depth handlerNext h.body >>= fun region => pure (h.target, region))
      (emitNested o depth (handlerNext.map σ.own) (renameBlocks σ inHandler h.body)
        >>= fun region => pure (h.target, region)) := by
    rintro h rfl
    apply ((mirrored_handler h rfl).emitNested (fun path r => (sub path r).2.1) depth _).bind
    intro region _
    exact .of_eq rfl
  apply (Mirrors.mapM in_handler).bind
  intro handlerRegion _
  have in_finalizer : ∀ c ∈ finalizer, Mirrors (Region.rename σ.own) (Follows o σ bodies k)
      (emitNested o depth next c)
      (emitNested o depth (next.map σ.own) (renameBlocks σ inFinalizer c)) := by
    rintro c rfl
    exact (mirrored_finalizer c rfl).emitNested (fun path r => (sub path r).2.2) depth next
  apply (Mirrors.mapM in_finalizer).bind
  intro finalizerRegion _
  -- Then their sizes, which renaming does not change, and the header.
  apply (mirrors_of_local (failsOnly_sizeWord _ _)).bind
  intro bodySize _
  apply Mirrors.bind
  · apply mirrors_mapM_of_local
    · exact fun _ => rfl
    · exact fun _ => (failsOnly_sizeWord _ _).bind fun _ _ => .pure _
  intro handlerSize _
  apply Mirrors.bind
  · apply mirrors_mapM_of_local
    · exact fun _ => rfl
    · exact fun _ => failsOnly_sizeWord _ _
  intro finalizerSize _
  apply (mirrors_of_local (Record.failsOnly_encode _)).bind
  intro code _
  apply Mirrors.of_eq
  cases handlerRegion <;> cases finalizerRegion <;> simp

theorem mirrors_emitFlow {flow : Flow} (mirrored : ∀ c ∈ flow.clauses, Mirrored o c)
    (k depth : Nat) (next : Option Label) {block block' : Block}
    (terminal : block'.endsTerminal = block.endsTerminal) :
    Mirrors (Region.rename σ.own) (Follows o σ (flowBodies flow) k)
      (emitFlow o depth next block flow).result
      (emitFlow o depth (next.map σ.own) block' (renameFlow σ k flow)).result := by
  have sized : ∀ what size, Mirrors id (Follows o σ (flowBodies flow) k) (sizeWord what size)
      (sizeWord what size) := fun what size => mirrors_of_local (failsOnly_sizeWord what size)
  have encoded : ∀ r : Record, Mirrors id (Follows o σ (flowBodies flow) k) r.encode r.encode :=
    fun r => mirrors_of_local r.failsOnly_encode
  cases flow with
  | simple target =>
    -- The target is what follows before renaming exactly if it is so after it.
    rw [renameFlow, emitFlow, emitFlow, terminal, continuation_rename σ.own_injective]
    split
    · exact .ok Region.empty
    · exact .ok (continuation target next)
  | branch onTrue onFalse =>
    rw [renameFlow, emitFlow, emitFlow, continuation_rename σ.own_injective,
      ← Region.rename_branching, ← Region.rename_append]
    exact .ok _
  | leave =>
    rw [renameFlow, emitFlow, emitFlow, Traced.result_bind, Traced.result_liftM]
    apply (encoded _).bind
    intro code _
    exact .ok (Region.ofCode code)
  | raise =>
    rw [renameFlow, emitFlow, emitFlow, Traced.result_bind, Traced.result_liftM]
    apply (encoded _).bind
    intro code _
    exact .ok (Region.ofCode code)
  | broken note => exact .ok (Region.ofCode Record.brokenFlow)
  | waitForFrame frame ready loading =>
    rw [renameFlow, emitFlow, emitFlow, Traced.result_bind, Traced.result_bind, Traced.result_liftM]
    apply (encoded _).bind
    intro code _
    exact .ok (Region.ofCode code ++ jumpPair ready loading)
  | waitForFrame2 ready loading =>
    rw [renameFlow, emitFlow, emitFlow, Traced.result_bind, Traced.result_bind, Traced.result_liftM]
    apply (encoded _).bind
    intro code _
    exact .ok (Region.ofCode code ++ jumpPair ready loading)
  | within body =>
    have bodies_eq : flowBodies (.within body) = functionBodies body := by
      simp [flowBodies, Flow.clauses]
    rw [renameFlow, result_emitFlow_within, result_emitFlow_within]
    have inner := mirrored body (by simp [Flow.clauses])
    apply (inner.emitNested (fun _ _ h => bodies_eq ▸ h) depth next).bind
    intro region _
    apply (sized _ _).bind
    intro size _
    apply (encoded _).bind
    intro code _
    exact .of_eq (by simp)
  | protect t =>
    obtain ⟨body, handler, finalizer⟩ := t
    exact mirrors_emitFlow_protect (mirrored body (by simp [Flow.clauses]))
      (fun h hh => mirrored h.body (by simp_all [Flow.clauses, TryScope.handlerBlocks]))
      (fun c hc => mirrored c (by simp_all [Flow.clauses, TryScope.finalizerBlocks])) k depth next
      block block'

end

/-- Emission of a graph with its labels renamed goes as that of the graph. -/
theorem mirrored (o : Options) (g : Graph) : Mirrored o g := by
  induction g using induction with
  | nil => exact fun σ k depth next => .ok Region.empty
  | cons label actions flow rest bodies_ih clauses_ih rest_ih =>
    intro σ k depth next
    rw [renameBlocks, result_emitBlocks_cons, result_emitBlocks_cons, firstLabel?_renameBlocks,
      ← Option.map_or]
    -- Each part counts its functions on from where the part before it has stopped.
    have sub := @located_cons label actions flow rest k
    apply ((mirrors_emitActions bodies_ih k depth).mono fun _ _ _ =>
      Follows.mono fun path r => (sub path r).1).bind
    intro code _
    have terminal : Block.endsTerminal ⟨σ.own label, renameActions σ k actions,
        renameFlow σ (k + (actionBodies actions).length) flow⟩
        = Block.endsTerminal ⟨label, actions, flow⟩ := by
      rw [endsTerminal_eq, endsTerminal_eq, map_isTerminal_renameActions]
    apply ((mirrors_emitFlow clauses_ih _ depth ((firstLabel? rest).or next) terminal).mono
      fun _ _ _ => Follows.mono fun path r => (sub path r).2.1).bind
    intro exit _
    apply ((rest_ih σ _ depth next).mono fun _ _ _ => Follows.mono fun path r => (sub path r).2.2).bind
    intro behind _
    exact .of_eq (by simp)

/-! ## §3 Repeated labels -/

/-- Two regions that repeat the same label, up to the renaming of the region at the path. -/
def RepeatsAlike (σ : Renaming) (AtPath : List Nat → Graph → Prop) (r r' : Graph) : Prop :=
  ∃ path, AtPath path r ∧ repeatedLabel? r' = (repeatedLabel? r).map (σ.map path)

section

variable {σ : Renaming} {AtPath AtPath' : List Nat → Graph → Prop} {rs rs' : List Graph}

theorem RepeatsAlike.mono {r r' : Graph} (sub : ∀ path r, AtPath path r → AtPath' path r)
    (h : RepeatsAlike σ AtPath r r') : RepeatsAlike σ AtPath' r r' := by
  obtain ⟨path, at_path, alike⟩ := h
  exact ⟨path, sub path r at_path, alike⟩

/-- The regions below a function body are renamed as regions below the function. -/
theorem RepeatsAlike.enter {bodies : List Graph} {body r r' : Graph} {k : Nat}
    (h : RepeatsAlike (σ.inside k) (Located (functionBodies body) 0) r r') :
    RepeatsAlike σ (Located (body :: bodies) k) r r' := by
  obtain ⟨path, at_path, alike⟩ := h
  exact ⟨k :: path, .of_regionAt? at_path.regionAt?_eq, alike⟩

/-- The regions below a graph repeat labels as those below the renamed graph. -/
def RepeatsBelow (g : Graph) : Prop :=
  ∀ σ k, List.Forall₂ (RepeatsAlike σ (Located (functionBodies g) k)) (innerRegions g)
    (innerRegions (renameBlocks σ k g))

theorem repeatsAlike_actionRegions {actions : List Action}
    (below : ∀ f, Action.define f ∈ actions → RepeatsBelow f.body) (k : Nat) :
    List.Forall₂ (RepeatsAlike σ (Located (actionBodies actions) k)) (actionRegions actions)
      (actionRegions (renameActions σ k actions)) := by
  induction actions generalizing k with
  | nil => exact .nil
  | cons a rest ih =>
    have behind := ih fun f hf => below f (List.mem_cons_of_mem _ hf)
    rcases a with i | ⟨header, body⟩
    · exact behind k
    · rw [renameActions, actionRegions, actionRegions]
      have in_rest : ∀ path r, Located (actionBodies rest) (k + 1) path r →
          Located ([body] ++ actionBodies rest) k path r := fun path r h => h.append_left
      apply List.rel_append
      · exact (behind (k + 1)).imp fun r r' => RepeatsAlike.mono in_rest
      · -- First the body itself, then the regions below it.
        refine .cons ⟨[k], .of_regionAt? rfl, ?_⟩ ?_
        · exact repeatedLabel?_renameBlocks (σ.inside k) 0 body
        · have inner := below ⟨header, body⟩ List.mem_cons_self (σ.inside k) 0
          exact inner.imp fun r r' => RepeatsAlike.enter

theorem repeatsBelow (g : Graph) : RepeatsBelow g := by
  induction g using induction with
  | nil => exact fun σ k => .nil
  | cons label actions flow rest bodies_ih clauses_ih rest_ih =>
    intro σ k
    have sub := @located_cons label actions flow rest k
    rw [renameBlocks, innerRegions, innerRegions, flowRegions_eq_flatMap, flowRegions_eq_flatMap]
    apply List.rel_append
    · apply List.rel_append
      · exact (rest_ih σ _).imp fun r r' => RepeatsAlike.mono fun path r => (sub path r).2.2
      · have in_clauses : List.Forall₂ (fun c c' =>
            List.Forall₂ (RepeatsAlike σ (Located (functionBodies (⟨label, actions, flow⟩ :: rest)) k))
              (innerRegions c) (innerRegions c')) flow.clauses
            (renameFlow σ (k + (actionBodies actions).length) flow).clauses := by
          refine ((List.forall₂_and_left _ _).mpr ⟨clauses_ih, parts_renameFlow σ _ flow⟩).imp ?_
          rintro c c' ⟨below, j, rfl, in_flow⟩
          exact (below σ j).imp fun r r' =>
            RepeatsAlike.mono fun path r at_path => (sub path r).2.1 (in_flow path r at_path)
        exact List.rel_flatMap (List.rel_reverse in_clauses) fun _ _ h => h
    · exact (repeatsAlike_actionRegions bodies_ih k).imp fun r r' =>
        RepeatsAlike.mono fun path r => (sub path r).1

/-- The first region that repeats a label is the same before and after renaming. -/
theorem findSome?_repeatedLabel? (h : List.Forall₂ (RepeatsAlike σ AtPath) rs rs') :
    (rs.findSome? repeatedLabel? = none → rs'.findSome? repeatedLabel? = none)
      ∧ ∀ l, rs.findSome? repeatedLabel? = some l → ∃ path r, AtPath path r
        ∧ repeatedLabel? r = some l ∧ rs'.findSome? repeatedLabel? = some (σ.map path l) := by
  induction h with
  | nil => simp
  | @cons r r' rs rs' alike _ ih =>
    obtain ⟨path, at_path, alike⟩ := alike
    rw [List.findSome?_cons, List.findSome?_cons, alike]
    cases repeated : repeatedLabel? r with
    | none => exact ih
    | some l =>
      refine ⟨by simp, fun l' first => ?_⟩
      obtain rfl : l = l' := by simpa using first
      exact ⟨path, r, at_path, repeated, rfl⟩

end

/-- The region is to blame for the error: it names a label that it does not define, or it defines a
    label twice. -/
def Blames (tight : Bool) (r : Graph) : LowerError → Prop
  | .labelNotFound l _ => l ∈ references tight r ∧ l ∉ regionLabels r
  | .duplicateLabel l => repeatedLabel? r = some l
  | _ => True

/-- Two errors, of a graph and of the graph with its labels renamed: the label is renamed as in the
    region that is to blame. -/
def Blamed (tight : Bool) (σ : Renaming) (g : Graph) (e e' : LowerError) : Prop :=
  ∃ path r, regionAt? g path = some r ∧ Blames tight r e ∧ e' = e.rename (σ.map path)

theorem blames_of_faultyAlone {o : Options} {r : Graph} {e : LowerError} (fault : FaultyAlone o r e) :
    Blames o.suppressUnreachableTail r e := by
  cases e with
  | labelNotFound l site => exact dangling_of_faultyAlone fault
  | duplicateLabel l =>
    obtain ⟨depth, region, terminate, -, failed⟩ := fault
    obtain ⟨j, -, at_fault⟩ := Region.exists_fault_of_finish failed
    rcases Region.resolve?_eq_error_iff.mp at_fault with ⟨_, _, _, other⟩ | ⟨_, _, _, other⟩
    · cases other
    · cases other
  | _ => trivial

theorem blamed_of_follows {o : Options} {σ : Renaming} {g : Graph} {e e' : LowerError}
    (h : Follows o σ (functionBodies g) 0 e e') : Blamed o.suppressUnreachableTail σ g e e' := by
  rcases h with ⟨of_record, rfl⟩ | ⟨path, r, at_path, fault, renamed⟩
  · -- A local error has no label, so any region may be taken.
    refine ⟨[], g, rfl, ?_, (e'.rename_of_local of_record _).symm⟩
    cases e' with
    | labelNotFound l site => cases of_record
    | duplicateLabel l => cases of_record
    | _ => trivial
  · exact ⟨path, r, at_path.regionAt?_eq, blames_of_faultyAlone fault, renamed⟩

theorem mirrors_validate (tight : Bool) (σ : Renaming) (g : Graph) :
    Mirrors id (Blamed tight σ g) g.validate (g.rename σ).validate := by
  have regions_alike : List.Forall₂ (RepeatsAlike σ fun path r => regionAt? g path = some r)
      (regions g) (regions (g.rename σ)) := by
    refine .cons ⟨[], rfl, repeatedLabel?_renameBlocks σ 0 g⟩ ?_
    exact (repeatsBelow g σ 0).imp fun r r' => RepeatsAlike.mono fun path r h => h.regionAt?_eq
  obtain ⟨none_repeated, first_repeated⟩ := findSome?_repeatedLabel? regions_alike
  unfold validate
  cases first : (regions g).findSome? repeatedLabel? with
  | none =>
    rw [none_repeated first]
    exact .ok ()
  | some l =>
    obtain ⟨path, r, at_path, repeated, first'⟩ := first_repeated l first
    rw [first']
    exact .error ⟨path, r, at_path, repeated, rfl⟩

theorem mirrors_lowerRegion (σ : Renaming) (g : Graph) (terminate : Bool) (o : Options) :
    Mirrors id (Blamed o.suppressUnreachableTail σ g) (lowerRegion g terminate o)
      (lowerRegion (g.rename σ) terminate o) := by
  rw [lowerRegion, lowerRegion, lowerRegionTraced, lowerRegionTraced, Traced.result_bind,
    Traced.result_bind]
  apply ((mirrored o g σ 0 0 none).mono fun _ _ _ => blamed_of_follows).bind
  intro region emitted
  apply (region.mirrors_finish σ.own_injective terminate).mono
  intro e e' failed renamed
  exact ⟨[], g, rfl, blames_of_faultyAlone ⟨0, region, terminate, emitted, failed⟩, renamed⟩

end Graph

/-! ## §4 Lowering -/

theorem lower_eq (g : Graph) (o : Options) :
    lower g o = (if o.validate then g.validate else .ok ()) >>= fun _ =>
      lowerRegion g o.appendTerminator o := by
  rw [lower, lowerTraced]
  split
  · rw [Traced.result_bind, Traced.result_liftM]
    rfl
  · rfl

/-- The text of labels carries no meaning. If the labels of each region are renamed one-to-one,
    lowering writes the same bytes, or it fails with the same error, whose label is renamed as in
    the region that is to blame. -/
theorem lower_rename (σ : Renaming) (g : Graph) (o : Options) :
    (∀ bytes, lower g o = .ok bytes → lower (g.rename σ) o = .ok bytes)
      ∧ ∀ e, lower g o = .error e → ∃ path r, Graph.regionAt? g path = some r
        ∧ Graph.Blames o.suppressUnreachableTail r e
        ∧ lower (g.rename σ) o = .error (e.rename (σ.map path)) := by
  have mirrors : Mirrors id (Graph.Blamed o.suppressUnreachableTail σ g) (lower g o)
      (lower (g.rename σ) o) := by
    rw [lower_eq, lower_eq]
    have checked : Mirrors id (Graph.Blamed o.suppressUnreachableTail σ g)
        (if o.validate then g.validate else .ok ())
        (if o.validate then (g.rename σ).validate else .ok ()) := by
      split
      · exact Graph.mirrors_validate _ σ g
      · exact .ok ()
    apply checked.bind
    intro _ _
    exact Graph.mirrors_lowerRegion σ g o.appendTerminator o
  constructor
  · intro bytes lowered
    rw [lowered] at mirrors
    exact mirrors.eq_ok
  · intro e failed
    rw [failed] at mirrors
    obtain ⟨e', failed', path, r, at_path, blame, rfl⟩ := mirrors.exists_eq_error
    exact ⟨path, r, at_path, blame, failed'⟩

/-- Puts a plus sign before each label, and one more for each function around its region. -/
def plusSigns : Renaming where
  map path l := ⟨String.ofList (List.replicate (path.length + 1) '+' ++ l.text.toList)⟩
  injective path := by
    rintro ⟨text⟩ ⟨text'⟩ same
    have chars_eq := String.ofList_injective (congrArg Label.text same)
    exact congrArg Label.mk (String.toList_injective (List.append_cancel_left chars_eq))

theorem guardedLoop_rename :
    (∃ bytes, lower guardedLoop {} = .ok bytes
        ∧ lower (guardedLoop.rename plusSigns) {} = .ok bytes)
      ∧ lower strayFunction {} = .error (.labelNotFound ⟨"start"⟩ 3)
      ∧ ∃ path r, Graph.regionAt? strayFunction path = some r
        ∧ ⟨"start"⟩ ∈ Graph.references false r
        ∧ lower (strayFunction.rename plusSigns) {}
          = .error (.labelNotFound (plusSigns.map path ⟨"start"⟩) 3) := by
  have lowered := lowerRegion_guardedLoop
  have failed : lower strayFunction {} = .error (.labelNotFound ⟨"start"⟩ 3) := by
    decide +kernel
  obtain ⟨path, r, at_path, ⟨named, -⟩, renamed⟩ :=
    (lower_rename plusSigns strayFunction {}).2 _ failed
  refine ⟨⟨_, lowered, (lower_rename plusSigns guardedLoop {}).1 _ lowered⟩, failed, ?_⟩
  exact ⟨path, r, at_path, named, renamed⟩

end ActionFlow
