import ActionFlow.Proofs.ControlFlow
import ActionFlow.Proofs.Embedding
import ActionFlow.Proofs.Malformed
import ActionFlow.Proofs.Suppression
import Mathlib

/-!
# Where terminal actions take control

Lowering can leave out the continuation of a block whose last action is terminal, and decides that
by the code of the action alone. Here the last action is read where it stands in the final code.
Returns, throws and stops halt, whatever follows them. A jump goes where its operand says. The
operand of a raw jump is written as it was given, so it counts bytes of the code around it: if it is
zero, control goes on right behind the jump, in the continuation that may have been left out.

## Main statements

- `Instruction.departure`: where a terminal instruction at an offset takes control.
- `step_eq_departure`: so it does in the code.
- `Graph.placementsOf`: where the regions of a graph stand, with or without suppression.
- `Graph.departs_of_lowerRegion`: the terminal instructions of a lowered graph depart as they say.
- `lower_departs_alike`: what suppression does to them.
- `zeroJump_departs_apart`: suppression can change what a graph does.
-/

namespace ActionFlow

/-! ## §1 Terminal instructions -/

/-- Control has left the code. -/
def Control.Halted (c : Control) : Prop := ∀ q, c ≠ .running q

namespace Instruction

/-- The payload with which an instruction is written. -/
def content (i : Instruction) : Bytes := (Record.action (.plain i)).content

/-- The bytes of an instruction. -/
def bytes (i : Instruction) : Bytes := (Record.action (.plain i)).write.bytes

/-- Where a terminal instruction at offset `p` takes control; a jump may have an operand that leads
    nowhere. -/
def departure (i : Instruction) (p : Nat) : Option Control :=
  if i.code = Code.jump then (branchTarget p i.content).toOption.map .running
  else if i.code = Code.stop then some .stopped
  else if i.code = Op.ret.code then some .returned
  else if i.code = Op.throwValue.code then some .raised
  else none

variable {i : Instruction} {p q : Nat}

theorem code_of_isTerminal (terminal : i.isTerminal = true) :
    i.code = Code.jump ∨ i.code = Code.stop ∨ i.code = Op.ret.code
      ∨ i.code = Op.throwValue.code := by
  fun_cases isTerminal i with
  | case1 => exact .inr (.inr (.inl rfl))
  | case2 => exact .inr (.inr (.inr rfl))
  | case3 c data =>
    simp only [isTerminal, Bool.or_eq_true, beq_iff_eq] at terminal
    simp only [code]
    tauto
  | case4 => simp_all [isTerminal]

/-- Without a jump, a terminal instruction halts, and it does so wherever it stands. -/
theorem exists_halted_departure (terminal : i.isTerminal = true) (no_jump : i.code ≠ Code.jump) :
    ∃ c : Control, c.Halted ∧ ∀ p, i.departure p = some c := by
  rcases code_of_isTerminal terminal with is_jump | is_stop | is_return | is_throw
  · exact absurd is_jump no_jump
  · exact ⟨.stopped, by simp [Control.Halted], fun p => by rw [departure, is_stop]; rfl⟩
  · exact ⟨.returned, by simp [Control.Halted], fun p => by rw [departure, is_return]; rfl⟩
  · exact ⟨.raised, by simp [Control.Halted], fun p => by rw [departure, is_throw]; rfl⟩

/-- Of all instructions only a raw one is a jump, and its data is its payload. -/
theorem eq_raw_of_jump (is_jump : i.code = Code.jump) : i = .raw Code.jump i.content := by
  obtain ⟨data, raw⟩ := eq_raw_of_mem_reserved (i := i) (by rw [is_jump]; decide)
  rw [is_jump] at raw
  subst raw
  rfl

/-- A terminal instruction keeps control in the code only as a jump with an operand of one word. -/
theorem departure_eq_running_iff :
    i.departure p = some (.running q) ↔ ∃ lo hi, i = .raw Code.jump [lo, hi]
      ∧ (q : Int) = ((p + 5 : Nat) : Int) + Bytes.signedWord lo hi := by
  constructor
  · intro departs
    by_cases is_jump : i.code = Code.jump
    · rw [departure, if_pos is_jump, Option.map_eq_some_iff] at departs
      obtain ⟨target, reached, same⟩ := departs
      obtain rfl := Control.running.inj same
      cases found : branchTarget p i.content with
      | error e => simp [found, Except.toOption] at reached
      | ok t =>
        obtain rfl : t = target := by simpa [found, Except.toOption] using reached
        obtain ⟨lo, hi, content_eq, distance⟩ := branchTarget_eq_ok_iff.mp found
        exact ⟨lo, hi, content_eq ▸ eq_raw_of_jump is_jump, distance⟩
    · rw [departure, if_neg is_jump] at departs
      split_ifs at departs <;> simp at departs
  · rintro ⟨lo, hi, rfl, distance⟩
    have reached : branchTarget p (content (.raw Code.jump [lo, hi])) = .ok q :=
      branchTarget_eq_ok_iff.mpr ⟨lo, hi, rfl, distance⟩
    have is_jump : (raw Code.jump [lo, hi]).code = Code.jump := rfl
    rw [departure, if_pos is_jump, reached]
    rfl

theorem length_bytes_jump (lo hi : UInt8) : (raw Code.jump [lo, hi]).bytes.length = 5 := rfl

theorem eq_zero_of_signedWord {lo hi : UInt8} (zero : Bytes.signedWord lo hi = 0) :
    lo = 0 ∧ hi = 0 := by
  have lo_lt := lo.toNat_lt
  have hi_lt := hi.toNat_lt
  -- The word is below its modulus, so it is zero if its signed reading is.
  have divides : (65536 : Int) ∣ Bytes.word lo hi := Int.dvd_of_bmod_eq_zero zero
  rw [Bytes.word] at divides
  have both : lo.toNat = 0 ∧ hi.toNat = 0 := by omega
  exact ⟨UInt8.toNat_inj.mp both.1, UInt8.toNat_inj.mp both.2⟩

/-- Control goes on right behind a terminal instruction only if it is a jump by zero bytes. -/
theorem departure_eq_behind_iff :
    i.departure p = some (.running (p + i.bytes.length)) ↔ i = .raw Code.jump [0, 0] := by
  rw [departure_eq_running_iff]
  constructor
  · rintro ⟨lo, hi, rfl, distance⟩
    rw [length_bytes_jump, left_eq_add] at distance
    obtain ⟨rfl, rfl⟩ := eq_zero_of_signedWord distance
    rfl
  · rintro rfl
    have zero : Bytes.signedWord 0 0 = 0 := by decide
    exact ⟨0, 0, rfl, by rw [length_bytes_jump, zero, Int.add_zero]⟩

end Instruction

/-! ## §2 Terminal instructions in the code -/

section Code

variable {code : Bytes} {p : Nat} {i : Instruction}

/-- What is read at a framed branch: nothing, if its operand leads nowhere. -/
theorem entryAt_branch {c : UInt8} {payload : Bytes}
    (stands : Stands code p (Bytes.frame c payload)) (framed : Frameable c payload)
    (branch : c = Code.branch ∨ c = Code.jump) :
    entryAt code p
      = (branchTarget p payload).toOption.map fun t => Entry.ofFrame p c payload (some t) := by
  cases reached : branchTarget p payload with
  | ok t =>
    have target_eq : targetOf p c payload = .ok (some t) := by
      rw [targetOf, if_pos (isBranchCode_iff.mpr branch), reached]
      rfl
    exact entryAt_of_stands stands framed target_eq
  | error e =>
    obtain ⟨rest, code_eq⟩ := stands
    have long := not_lt_of_branch branch
    have failed : readEntry p c ((Bytes.frame c payload).tail ++ rest) = .error e := by
      simp only [Bytes.frame, if_neg long, List.tail_cons, Bytes.ofUInt16, List.cons_append,
        List.nil_append]
      rw [readEntry_long_eq_error_iff long, Bytes.word_ofNat framed.long, List.take_left]
      exact .inr ⟨by simp, branch, reached⟩
    rw [Bytes.frame_eq_cons, List.cons_append] at code_eq
    rw [entryAt, ← code_eq]
    simp only [failed, Except.toOption]
    rfl

/-- In the code, a terminal instruction takes control where it says. -/
theorem step_eq_departure (stands : Stands code p i.bytes)
    (encodable : (Record.action (.plain i)).write.error? = none) (terminal : i.isTerminal = true)
    (holds : Bool) : step code holds p = i.departure p := by
  by_cases is_jump : i.code = Code.jump
  · -- A jump whose operand leads nowhere cannot be read, and takes control nowhere.
    obtain ⟨framed, bytes_eq⟩ := Record.write_of_encodable encodable
    rw [Instruction.bytes, bytes_eq] at stands
    have read := entryAt_branch stands framed (.inr is_jump)
    rw [Instruction.departure, if_pos is_jump, Instruction.content]
    cases reached : branchTarget p (Record.action (.plain i)).content with
    | error e =>
      rw [reached] at read
      rw [step, read]
      rfl
    | ok t =>
      rw [reached] at read
      rw [Placement.step_eq_some read]
      exact if_pos is_jump
  · have plain : isBranchCode (Record.action (.plain i)).code = false := by
      rcases Instruction.code_of_isTerminal terminal with h | h | h | h
      · exact absurd h is_jump
      all_goals rw [show (Record.action (.plain i)).code = i.code from rfl, h]; rfl
    have read := entryAt_record stands encodable plain
    have no_branch : i.code ≠ Code.branch := fun is_branch =>
      Bool.false_ne_true (plain.symm.trans (isBranchCode_iff.mpr (.inl is_branch)))
    rw [Placement.step_eq_some read, Instruction.departure, if_neg is_jump]
    exact (if_neg is_jump).trans (if_neg no_branch)

end Code

/-! ## §3 The last action of a block -/

theorem Plan.Laid.tail {q : Record → Prop} {w : Region} {pos : Nat} {n : Node} {ns : Plan}
    (laid : Laid q w pos (n :: ns)) : Laid q w (pos + (nodeRegion n).size) ns := by
  cases laid with
  | block _ _ rest_laid => rwa [size_block]
  | record _ _ rest_laid => rwa [size_record]
  | transfer _ rest_laid => rwa [size_transfer]
  | function _ _ _ _ rest_laid => rwa [size_function]
  | within _ _ rest_laid => rwa [size_within]
  | protect header_eq _ _ _ _ _ _ _ _ _ rest_laid =>
    subst header_eq
    rwa [size_protect]

namespace PartOf

variable {code : Bytes} {r : Placement} {pos : Nat}

theorem tail {n : Node} {ns : Plan} (part : PartOf code r pos (n :: ns)) :
    PartOf code r (pos + (Plan.nodeRegion n).size) ns := by
  obtain ⟨laid, stands, sites⟩ := part
  rw [Plan.code_cons, stands_append, Plan.length_nodeCode, Nat.add_assoc] at stands
  simp only [Plan.sites, List.mem_append, or_imp, forall_and, Nat.add_assoc] at sites
  exact ⟨laid.tail, stands.2, sites.2⟩

/-- What stands behind a part of a plan is a part too. -/
theorem behind {xs ys : Plan} (part : PartOf code r pos (xs ++ ys)) :
    PartOf code r (pos + Plan.size xs) ys := by
  induction xs generalizing pos with
  | nil => exact part
  | cons n ns ih =>
    rw [Plan.size_cons, ← Nat.add_assoc]
    exact ih part.tail

end PartOf

/-- The instruction `i` at offset `p` is what the actions of a block end with, and it takes control
    where it says. It keeps control in the code only as a jump with an operand of one word, which
    counts from the end of the actions; so control goes on right behind it only if that is zero. -/
structure Site.Departs (code : Bytes) (s : Site) (i : Instruction) (p : Nat) : Prop where
  stands : Stands code p i.bytes
  stop_eq : p + i.bytes.length = s.exit
  step_eq : ∀ holds, step code holds p = i.departure p
  running_iff : ∀ holds q, step code holds p = some (.running q) ↔ ∃ lo hi,
    i = .raw Code.jump [lo, hi] ∧ (q : Int) = (s.exit : Int) + Bytes.signedWord lo hi
  behind_iff : ∀ holds, step code holds p = some (.running s.exit) ↔ i = .raw Code.jump [0, 0]

theorem Site.departs_of_part {code : Bytes} {r : Placement} {pos : Nat} {tight : Bool} {s : Site}
    {front : List Action} {i : Instruction}
    (part : PartOf code r pos (Graph.actionsPlan tight (front ++ [.plain i])))
    (exit_eq : s.exit = r.start + (pos + Plan.size (Graph.actionsPlan tight (front ++ [.plain i]))))
    (terminal : i.isTerminal = true) : ∃ p, s.Departs code i p := by
  -- What is planned for the last action stands behind what is planned for the others.
  rw [Graph.actionsPlan_append] at part exit_eq
  obtain ⟨encodable, stands, -⟩ := part.behind.record
  have step_eq := step_eq_departure stands encodable terminal
  have stop_eq : r.start + (pos + Plan.size (Graph.actionsPlan tight front)) + i.bytes.length
      = s.exit := by
    have last_eq : Plan.size (Graph.actionsPlan tight [.plain i]) = i.bytes.length :=
      (Plan.size_cons _ _).trans (Plan.size_record _)
    rw [exit_eq, Plan.size_append, last_eq, Nat.add_assoc, Nat.add_assoc]
  refine ⟨_, stands, stop_eq, step_eq, fun holds q => ?_, fun holds => ?_⟩
  · rw [step_eq holds, Instruction.departure_eq_running_iff, ← stop_eq]
    -- A jump with such an operand takes five bytes.
    constructor
    · rintro ⟨lo, hi, rfl, distance⟩
      exact ⟨lo, hi, rfl, distance⟩
    · rintro ⟨lo, hi, rfl, distance⟩
      exact ⟨lo, hi, rfl, distance⟩
  · rw [step_eq holds, ← stop_eq]
    exact Instruction.departure_eq_behind_iff

namespace Graph

variable {code : Bytes} {r : Placement} {tight : Bool}

/-- The actions of a block are written where the block starts. -/
def ActsAt (code : Bytes) (r : Placement) (tight : Bool) (s : Site) : Prop :=
  ∃ pos, PartOf code r pos (actionsPlan tight s.block.actions)
    ∧ s.exit = r.start + (pos + Plan.size (actionsPlan tight s.block.actions))

theorem actsAt_flow {flow : Flow}
    (clauses : ∀ c ∈ flow.clauses, ∀ next pos, PartOf code r pos (plan tight next c) →
      ∀ s ∈ Plan.sites (r.start + pos) (plan tight next c), ActsAt code r tight s)
    {pos : Nat} {next : Option Label} {b : Block}
    (part : PartOf code r pos (flowPlan tight next b flow)) :
    ∀ s ∈ Plan.sites (r.start + pos) (flowPlan tight next b flow), ActsAt code r tight s := by
  cases flow with
  | simple target =>
    rw [flowPlan]
    split
    · simp [Plan.sites]
    · simp [sites_continuation]
  | branch onTrue onFalse => simp [flowPlan, Plan.sites, Plan.nodeSites, sites_continuation]
  | within body =>
    rw [flowPlan] at part ⊢
    obtain ⟨-, -, inside⟩ := part.within
    simpa only [Plan.sites, Plan.nodeSites, List.append_nil, Nat.add_assoc]
      using clauses body (by simp [Flow.clauses]) next _ inside
  | protect t =>
    rw [flowPlan_protect] at part ⊢
    obtain ⟨-, -, -, in_body, in_handler, in_finalizer⟩ := part.protect
    have of_body := clauses t.body (by simp [Flow.clauses]) _ _ in_body
    have of_handler := clauses t.handlerBlocks (by simp [Flow.clauses]) _ _ in_handler
    have of_finalizer := clauses t.finalizerBlocks (by simp [Flow.clauses]) _ _ in_finalizer
    simp only [Plan.sites, Plan.nodeSites, List.append_nil, List.mem_append, or_imp, forall_and]
    simp only [Nat.add_assoc] at of_body of_handler of_finalizer ⊢
    exact ⟨of_body, of_handler, of_finalizer⟩
  | _ => simp [flowPlan, Plan.sites, Plan.nodeSites]

/-- With or without suppression, the actions of every block of a region are written where the block
    starts. -/
theorem actsAt_plan (g : List Block) (next : Option Label) (pos : Nat)
    (part : PartOf code r pos (plan tight next g)) :
    ∀ s ∈ Plan.sites (r.start + pos) (plan tight next g), ActsAt code r tight s := by
  induction g using induction generalizing next pos with
  | nil => simp [plan, Plan.sites]
  | cons label actions flow rest _ clauses_ih rest_ih =>
    intro s hs
    rw [plan] at part hs
    obtain ⟨-, in_actions, in_exit, in_rest⟩ := part.block
    simp only [Plan.sites, Plan.nodeSites, sites_actionsPlan, List.nil_append, List.mem_append,
      List.mem_cons, Plan.size_block] at hs
    rcases hs with (rfl | hs) | hs
    · exact ⟨pos, in_actions, Nat.add_assoc _ _ _⟩
    · exact actsAt_flow clauses_ih in_exit s (by rwa [← Nat.add_assoc])
    · exact rest_ih next _ in_rest s (by rwa [← Nat.add_assoc])

/-! ## §4 Both layouts of a graph -/

/-- A graph and the function bodies in it, with the offsets at which their code starts; `tight` if
    suppressed continuations are left out. -/
def placementsOf (tight : Bool) (g : Graph) : List Placement :=
  ⟨g, plan tight none g, 0⟩ :: Plan.placements 0 (plan tight none g)

theorem places_placementsOf (tight : Bool) (g : Graph) :
    Places tight (g.placementsOf tight) g.regions :=
  List.Perm.cons _ (places_plan tight g none 0)

theorem placed_of_lowerRegion {g : Graph} {terminate : Bool} {o : Options} {bytes : Bytes}
    (lowered : lowerRegion g terminate o = .ok bytes) :
    ∀ r ∈ g.placementsOf o.suppressUnreachableTail, Plan.Placed bytes r := by
  obtain ⟨-, -, resolvable, -⟩ := lowerRegion_eq_ok_iff.mp lowered
  obtain ⟨laid, bytes_eq⟩ :=
    Plan.laid_of_lowerRegion (p := fun _ => True) lowered fun _ _ => trivial
  have stands : Stands bytes 0 (Plan.code _ 0 (plan o.suppressUnreachableTail none g)) :=
    ⟨_, bytes_eq.symm⟩
  intro r hr
  rcases List.mem_cons.mp hr with rfl | hr
  · exact ⟨laid, resolvable, stands⟩
  · exact Plan.placed_of_laid laid stands r hr

theorem plan_eq_of_mem_placementsOf {g : Graph} (hr : r ∈ g.placementsOf tight) :
    r.plan = plan tight none r.graph := by
  have mem := (places_placementsOf tight g).mem_iff.mp (List.mem_map_of_mem hr)
  obtain ⟨x, -, pair_eq⟩ := List.mem_map.mp mem
  obtain ⟨rfl, plan_eq⟩ := Prod.mk.inj pair_eq
  exact plan_eq.symm

/-- In the code of a graph, every terminal instruction at the end of a block takes control where it
    says. -/
theorem departs_of_lowerRegion {g : Graph} {terminate : Bool} {o : Options} {bytes : Bytes}
    (lowered : lowerRegion g terminate o = .ok bytes) :
    ∀ r ∈ g.placementsOf o.suppressUnreachableTail, ∀ s ∈ r.sites, ∀ i,
      s.block.actions.getLast? = some (.plain i) → i.isTerminal = true →
        ∃ p, s.Departs bytes i p := by
  intro r hr s hs i last terminal
  have part := PartOf.of_placed (placed_of_lowerRegion lowered r hr)
  rw [Placement.sites] at hs
  rw [plan_eq_of_mem_placementsOf hr] at part hs
  obtain ⟨pos, in_actions, exit_eq⟩ := actsAt_plan r.graph none 0 part s hs
  obtain ⟨front, actions_eq⟩ := List.getLast?_eq_some_iff.mp last
  rw [actions_eq] at in_actions exit_eq
  exact Site.departs_of_part in_actions exit_eq terminal

/-- Whatever follows them, the blocks hold the same function bodies in the same order in both
    layouts. -/
def SameBodies (tight tight' : Bool) (c : List Block) : Prop :=
  ∀ next p p', (Plan.placements p (plan tight next c)).map Placement.graph
    = (Plan.placements p' (plan tight' next c)).map Placement.graph

theorem sameBodies_actions {tight' : Bool} {actions : List Action}
    (bodies : ∀ f, Action.define f ∈ actions → SameBodies tight tight' f.body) (p p' : Nat) :
    (Plan.placements p (actionsPlan tight actions)).map Placement.graph
      = (Plan.placements p' (actionsPlan tight' actions)).map Placement.graph := by
  induction actions generalizing p p' with
  | nil => rfl
  | cons a rest ih =>
    have behind := fun q q' => ih (fun f hf => bodies f (List.mem_cons_of_mem _ hf)) q q'
    rcases a with i | ⟨header, body⟩
    · exact behind _ _
    · have inside := bodies ⟨header, body⟩ List.mem_cons_self none
      simp only [actionsPlan, Plan.placements, Plan.nodePlacements, List.map_append, List.map_cons]
      exact congrArg₂ _ (congrArg _ (inside _ _)) (behind _ _)

theorem sameBodies_flow {tight' : Bool} {flow : Flow}
    (clauses : ∀ c ∈ flow.clauses, SameBodies tight tight' c) (p p' : Nat) (next : Option Label)
    (b : Block) :
    (Plan.placements p (flowPlan tight next b flow)).map Placement.graph
      = (Plan.placements p' (flowPlan tight' next b flow)).map Placement.graph := by
  cases flow with
  | simple target =>
    -- Whether or not a continuation is left out, there is no function in it.
    have absent : ∀ t q, Plan.placements q (flowPlan t next b (.simple target)) = [] := by
      intro t q
      rw [flowPlan]
      split
      · rfl
      · exact placements_continuation q target next
    rw [absent, absent]
  | branch onTrue onFalse =>
    simp [flowPlan, Plan.placements, Plan.nodePlacements, placements_continuation]
  | within body =>
    have of_body := clauses body (by simp [Flow.clauses]) next
    simpa [flowPlan, Plan.placements, Plan.nodePlacements] using of_body _ _
  | protect t =>
    have of_body := clauses t.body (by simp [Flow.clauses])
    have of_handler := clauses t.handlerBlocks (by simp [Flow.clauses])
    have of_finalizer := clauses t.finalizerBlocks (by simp [Flow.clauses])
    simp only [flowPlan_protect, Plan.placements, Plan.nodePlacements, List.append_nil,
      List.map_append]
    exact congrArg₂ _ (of_body _ _ _) (congrArg₂ _ (of_handler _ _ _) (of_finalizer _ _ _))
  | _ => simp [flowPlan, Plan.placements, Plan.nodePlacements]

theorem sameBodies (tight tight' : Bool) (g : List Block) : SameBodies tight tight' g := by
  induction g using induction with
  | nil => exact fun _ _ _ => rfl
  | cons label actions flow rest bodies_ih clauses_ih rest_ih =>
    intro next p p'
    simp only [plan, Plan.placements, Plan.nodePlacements, List.map_append]
    rw [sameBodies_actions bodies_ih, sameBodies_flow clauses_ih, rest_ih]

theorem map_graph_placementsOf (tight tight' : Bool) (g : Graph) :
    (g.placementsOf tight).map Placement.graph = (g.placementsOf tight').map Placement.graph :=
  congrArg (g :: ·) (sameBodies tight tight' g none 0 0)

theorem map_block_sites_placementsOf {g : Graph} (hr : r ∈ g.placementsOf tight) :
    r.sites.map Site.block = layout r.graph := by
  rw [Placement.sites, plan_eq_of_mem_placementsOf hr]
  exact map_block_sites tight r.graph none r.start

end Graph

/-! ## §5 Suppression -/

/-- In both codes, the terminal instruction `i` stands at the end of the actions of the block and
    takes control where it says. If it is not a jump, that is the same in both, and out of the
    code. -/
def Site.DepartsAlike (wide tight : Bytes) (s s' : Site) (i : Instruction) : Prop :=
  ∃ p p', s.Departs wide i p ∧ s'.Departs tight i p'
    ∧ (i.code ≠ Code.jump → ∃ c : Control, c.Halted
      ∧ ∀ holds, step wide holds p = some c ∧ step tight holds p' = some c)

/-- The two codes of a graph, without and with suppression, have the same regions with the same
    blocks. Where a block ends with a terminal instruction, this departs alike. -/
def Graph.DepartsAlike (g : Graph) (wide tight : Bytes) : Prop :=
  ((g.placementsOf false).map Placement.graph).Perm g.regions
    ∧ List.Forall₂ (fun r r' => r.graph = r'.graph ∧ r.sites.map Site.block = layout r.graph
        ∧ List.Forall₂ (fun s s' => s.block = s'.block
            ∧ ∀ i, s.block.actions.getLast? = some (.plain i) → i.isTerminal = true →
              Site.DepartsAlike wide tight s s' i)
          r.sites r'.sites)
      (g.placementsOf false) (g.placementsOf true)

theorem forall₂_of_map_eq {α γ : Type} {f : α → γ} {P : α → α → Prop} {xs ys : List α}
    (same : xs.map f = ys.map f) (pair : ∀ x ∈ xs, ∀ y ∈ ys, f x = f y → P x y) :
    List.Forall₂ P xs ys := by
  induction xs generalizing ys with
  | nil =>
    obtain rfl : ys = [] := by simpa using same.symm
    exact .nil
  | cons x xs ih =>
    obtain ⟨y, ys, rfl, head, tails⟩ := List.map_eq_cons_iff.mp same.symm
    refine .cons (pair x List.mem_cons_self y List.mem_cons_self head.symm) (ih tails.symm ?_)
    exact fun a ha b hb => pair a (List.mem_cons_of_mem _ ha) b (List.mem_cons_of_mem _ hb)

theorem Site.departsAlike {wide tight : Bytes} {s s' : Site} {i : Instruction}
    (terminal : i.isTerminal = true) (first : ∃ p, s.Departs wide i p)
    (second : ∃ p, s'.Departs tight i p) : Site.DepartsAlike wide tight s s' i := by
  obtain ⟨p, departs⟩ := first
  obtain ⟨p', departs'⟩ := second
  refine ⟨p, p', departs, departs', fun no_jump => ?_⟩
  obtain ⟨c, halted, departure_eq⟩ := Instruction.exists_halted_departure terminal no_jump
  refine ⟨c, halted, fun holds => ⟨?_, ?_⟩⟩
  · rw [departs.step_eq, departure_eq]
  · rw [departs'.step_eq, departure_eq]

theorem Graph.departsAlike_of_lowerRegion {g : Graph} {terminate : Bool} {o : Options}
    {wide tight : Bytes}
    (lowered : lowerRegion g terminate { o with suppressUnreachableTail := false } = .ok wide)
    (lowered' : lowerRegion g terminate { o with suppressUnreachableTail := true } = .ok tight) :
    g.DepartsAlike wide tight := by
  refine ⟨by simpa [Function.comp_def] using (places_placementsOf false g).map Prod.fst, ?_⟩
  refine forall₂_of_map_eq (map_graph_placementsOf false true g) fun r hr r' hr' same => ?_
  have blocks_eq := map_block_sites_placementsOf hr
  refine ⟨same, blocks_eq, forall₂_of_map_eq (f := Site.block) ?_ ?_⟩
  · rw [blocks_eq, map_block_sites_placementsOf hr', same]
  · -- The same block ends with the same instruction, wherever it stands.
    intro s hs s' hs' same_block
    refine ⟨same_block, fun i last terminal => Site.departsAlike terminal ?_ ?_⟩
    · exact departs_of_lowerRegion lowered r hr s hs i last terminal
    · exact departs_of_lowerRegion lowered' r' hr' s' hs' i (same_block ▸ last) terminal

/-- A graph that has code has code with suppression too. In both, every block that ends with a
    terminal instruction departs alike: control halts, unless the instruction is a raw jump, which
    goes as far from the end of the block as its operand says. So control goes on right behind the
    block only from a raw jump by zero bytes. -/
theorem lower_departs_alike {g : Graph} {o : Options} {wide : Bytes}
    (lowered : lower g { o with suppressUnreachableTail := false } = .ok wide) :
    ∃ tight, lower g { o with suppressUnreachableTail := true } = .ok tight
      ∧ g.DepartsAlike wide tight := by
  rw [lower_eq] at lowered
  obtain ⟨checked, valid, lowered⟩ := bind_eq_ok_iff.mp lowered
  obtain ⟨fits, sound, resolvable, -⟩ := lowerRegion_eq_ok_iff.mp lowered
  -- Leaving out continuations brings no branch out of reach.
  obtain ⟨sound', shrinks⟩ := Graph.trims_plan g none sound
  have resolvable' := shrinks.resolvable (Plan.tidy_region _) (Plan.tidy_region _) resolvable
  have lowered' :
      lowerRegion g o.appendTerminator { o with suppressUnreachableTail := true } = .ok _ :=
    lowerRegion_eq_ok_iff.mpr ⟨fits, sound', resolvable', rfl⟩
  exact ⟨_, (lower_eq _ _).trans (bind_eq_ok_iff.mpr ⟨checked, valid, lowered'⟩),
    Graph.departsAlike_of_lowerRegion lowered lowered'⟩

/-- A block that jumps by zero bytes and goes on at the last of three blocks. -/
def zeroJump : Graph :=
  [⟨⟨"a"⟩, [.plain (.raw Code.jump [0, 0])], .simple (some ⟨"b"⟩)⟩,
    ⟨⟨"c"⟩, [], .raise⟩,
    ⟨⟨"b"⟩, [.plain (.op .ret)], .simple none⟩]

theorem lower_zeroJump : lower zeroJump {} = .ok
    [0x99, 2, 0, 0, 0, 0x99, 2, 0, 1, 0, 0x2a, 0x3e, 0] := by
  decide +kernel

theorem lower_zeroJump_suppressed : lower zeroJump { suppressUnreachableTail := true } = .ok
    [0x99, 2, 0, 0, 0, 0x2a, 0x3e, 0] := by
  decide +kernel

theorem zeroJump_departs_alike : ∃ wide tight, lower zeroJump {} = .ok wide
    ∧ lower zeroJump { suppressUnreachableTail := true } = .ok tight
    ∧ zeroJump.DepartsAlike wide tight := by
  obtain ⟨tight, lowered, alike⟩ := lower_departs_alike (o := {}) lower_zeroJump
  exact ⟨_, tight, lower_zeroJump, lowered, alike⟩

/-- Control can go on behind a terminal instruction, into the continuation of its block. Here that
    leads to the last block, which returns. With suppression the next block stands there, and the
    graph raises instead. -/
theorem zeroJump_departs_apart : zeroJump.validate = .ok () ∧ ∃ wide tight,
    lower zeroJump {} = .ok wide ∧ lower zeroJump { suppressUnreachableTail := true } = .ok tight
      ∧ step wide false 0 = some (.running 5) ∧ step wide false 5 = some (.running 11)
      ∧ step wide false 11 = some .returned
      ∧ step tight false 0 = some (.running 5) ∧ step tight false 5 = some .raised := by
  refine ⟨by cbv, _, _, lower_zeroJump, lower_zeroJump_suppressed, ?_⟩
  decide +kernel

end ActionFlow
