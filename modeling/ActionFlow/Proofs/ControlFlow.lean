import ActionFlow.Proofs.LabelUniqueness
import ActionFlow.Proofs.Placement
import Mathlib

/-!
# Control goes where the flow of a block says

The flow of a block names labels; the code of a block ends with branches, or with nothing at all if
the next bytes are the right place to go on. Here the code is read as a machine would, from the
offset behind the last action of a block, and control is followed to the block that the flow names.
The argument for what was left out is one of adjacency: `Lands` says that the bytes behind a part of
a region start with the block that the part was told to expect there.

## Main statements

- `step`: where control goes from an offset of the code.
- `Placement.Obeys`: control goes where a flow says.
- `PartOf`: a plan is part of a region in the code.
- `Placement.lands_before`: what stands behind a part of a region is the block that follows it.
- `Graph.obeys_flow`: control that leaves the actions of a block goes where its flow says.
- `Graph.realized_plan`: so it does for every block of a region, at any depth of clauses.
- `lowerRegion_follows_flow`: so it does in the code of a valid graph, function bodies included.
-/

namespace ActionFlow

/-! ## §1 Control -/

/-- Where control is. -/
inductive Control where
  | running (offset : Nat)
  | stopped
  | returned
  | raised
deriving DecidableEq, Repr

/-- The action at an offset, if one can be read there. -/
def entryAt (code : Bytes) (p : Nat) : Option Entry :=
  match code.drop p with
  | [] => none
  | c :: rest => (readEntry p c rest).toOption

/-- Where the action at an offset takes control, if it is one that does; `holds` tells whether the
    condition of a branch holds. -/
def step (code : Bytes) (holds : Bool) (p : Nat) : Option Control := do
  let e ← entryAt code p
  if e.code = Code.jump then e.target.map .running
  else if e.code = Code.branch then if holds then e.target.map .running else some (.running e.stop)
  else if e.code = Code.stop then some .stopped
  else if e.code = Op.ret.code then some .returned
  else if e.code = Op.throwValue.code then some .raised
  else none

namespace TryHeader

/-- How many bytes the catch clause takes. -/
def handlerExtent (h : TryHeader) : Nat := h.handler.elim 0 fun clause => clause.2.toNat

/-- How many bytes the finally clause takes. -/
def finalizerExtent (h : TryHeader) : Nat := h.finalizerSize.elim 0 UInt16.toNat

/-- The header says which clauses there are, and how many bytes each one takes. -/
structure Describes (h : TryHeader) (target : Option CatchTarget) (finalized : Bool)
    (body handler finalizer : Nat) : Prop where
  target_eq : h.handler.map Prod.fst = target
  finalized_eq : h.finalizerSize.isSome = finalized
  body_eq : h.bodySize.toNat = body
  handler_eq : h.handlerExtent = handler
  finalizer_eq : h.finalizerExtent = finalizer

theorem exists_describes {target : Option CatchTarget} {finalized : Bool}
    {body handler finalizer : Nat} (body_fits : body ≤ 65535) (handler_fits : handler ≤ 65535)
    (finalizer_fits : finalizer ≤ 65535) (handler_absent : target = none → handler = 0)
    (finalizer_absent : finalized = false → finalizer = 0) :
    ∃ h, Node.protectHeader target finalized body handler finalizer = .protect h
      ∧ h.Describes target finalized body handler finalizer := by
  have word : ∀ {n : Nat}, n ≤ 65535 → (UInt16.ofNat n).toNat = n :=
    fun fits => UInt16.toNat_ofNat_of_lt' (Nat.lt_succ_of_le fits)
  refine ⟨_, rfl, ?_, ?_, word body_fits, ?_, ?_⟩
  · cases target <;> rfl
  · cases finalized <;> rfl
  · cases target with
    | none => exact (handler_absent rfl).symm
    | some t => exact word handler_fits
  · cases finalized with
    | false => exact (finalizer_absent rfl).symm
    | true => exact word finalizer_fits

end TryHeader

namespace Placement

/-- The blocks of a region in the code. -/
def sites (r : Placement) : List Site := Plan.sites r.start r.plan

/-- Where a region ends. -/
def stop (r : Placement) : Nat := r.start + Plan.size r.plan

/-- Where the block with a label starts. -/
def startOf? (r : Placement) (l : Label) : Option Nat :=
  (r.sites.find? fun s => s.block.label = l).map Site.start

/-- A jump to the block `l` stands at offset `p`. -/
def JumpsTo (code : Bytes) (r : Placement) (p : Nat) (l : Label) : Prop :=
  ∃ e target, entryAt code p = some e ∧ e.code = Code.jump ∧ r.startOf? l = some target
    ∧ ∀ holds, step code holds p = some (.running target)

/-- From offset `p`, control goes on at the block `l`: it is there already, or one jump takes it
    there. Without a label, it is at the end of the region, or stops. -/
def Continues (code : Bytes) (r : Placement) (p : Nat) : Option Label → Prop
  | some l => r.startOf? l = some p ∨ r.JumpsTo code p l
  | none => p = r.stop ∨ ∀ holds, step code holds p = some .stopped

/-- The blocks of a clause are what the `n` bytes at offset `p` hold, and control that comes to `p`
    is at the first of them. -/
structure Encloses (r : Placement) (p n : Nat) (g : List Block) : Prop where
  first : ∀ l, Graph.firstLabel? g = some l → r.startOf? l = some p
  bounds : ∀ s ∈ r.sites, s.block ∈ Graph.layout g → p ≤ s.start ∧ s.exit ≤ p + n
  empty : g = [] → n = 0

/-- From offset `p`, control goes where the flow says. -/
def Obeys (code : Bytes) (r : Placement) (p : Nat) : Flow → Prop
  | .simple target => r.Continues code p target
  | .branch onTrue onFalse => ∃ target behind, r.startOf? onTrue = some target
      ∧ step code true p = some (.running target)
      ∧ step code false p = some (.running behind) ∧ r.Continues code behind onFalse
  | .leave => ∀ holds, step code holds p = some .returned
  | .raise => ∀ holds, step code holds p = some .raised
  | .broken _ => ∃ e, entryAt code p = some e ∧ e.code = Code.push ∧ e.payload = [0xff]
  -- The wait skips one action if the frame is not there yet, and a jump takes five bytes.
  | .waitForFrame frame ready loading => ∃ e, entryAt code p = some e
      ∧ e.code = Code.waitForFrame ∧ e.payload = Bytes.ofUInt16 frame ++ [1]
      ∧ r.JumpsTo code e.stop ready ∧ r.JumpsTo code (e.stop + 5) loading
  | .waitForFrame2 ready loading => ∃ e, entryAt code p = some e
      ∧ e.code = Code.waitForFrame2 ∧ e.payload = [1]
      ∧ r.JumpsTo code e.stop ready ∧ r.JumpsTo code (e.stop + 5) loading
  | .within body => ∃ e, ∃ size : UInt16, entryAt code p = some e
      ∧ e.code = Code.within ∧ e.payload = Bytes.ofUInt16 size
      ∧ r.Encloses e.stop size.toNat body
  -- The clauses follow the header; where each one starts is a matter of the sizes in it.
  | .protect t => ∃ e, ∃ h : TryHeader, entryAt code p = some e
      ∧ e.code = Code.protect ∧ e.payload = h.payload
      ∧ h.handler.map Prod.fst = t.handler.map Handler.target
      ∧ h.finalizerSize.isSome = t.finalizer.isSome
      ∧ r.Encloses e.stop h.bodySize.toNat t.body
      ∧ r.Encloses (e.stop + h.bodySize.toNat) h.handlerExtent t.handlerBlocks
      ∧ r.Encloses (e.stop + h.bodySize.toNat + h.handlerExtent) h.finalizerExtent
          t.finalizerBlocks

end Placement

/-! ## §2 Reading actions in the code -/

theorem entryAt_of_stands {code : Bytes} {p : Nat} {c : UInt8} {payload : Bytes}
    {target : Option Nat} (stands : Stands code p (Bytes.frame c payload))
    (framed : Frameable c payload) (reached : targetOf p c payload = .ok target) :
    entryAt code p = some (Entry.ofFrame p c payload target) := by
  obtain ⟨rest, code_eq⟩ := stands
  rw [Bytes.frame_eq_cons, List.cons_append] at code_eq
  rw [entryAt, ← code_eq]
  simp only [readEntry_frame framed reached, Except.toOption]

theorem entryAt_record {code : Bytes} {p : Nat} {r : Record} (stands : Stands code p r.write.bytes)
    (encodable : r.write.error? = none) (plain : isBranchCode r.code = false) :
    entryAt code p = some (Entry.ofFrame p r.code r.content none) := by
  obtain ⟨framed, bytes_eq⟩ := Record.write_of_encodable encodable
  rw [bytes_eq] at stands
  exact entryAt_of_stands stands framed (by simp [targetOf, plain])

theorem stop_ofFrame {p : Nat} {r : Record} (encodable : r.write.error? = none)
    (target : Option Nat) :
    (Entry.ofFrame p r.code r.content target).stop = p + r.write.bytes.length := by
  obtain ⟨framed, bytes_eq⟩ := Record.write_of_encodable encodable
  rw [Entry.stop, Entry.size_ofFrame framed, bytes_eq]
  rfl

/-! ## §3 Labels of a region -/

namespace Placement

variable {r : Placement}

/-- No two blocks of the region have the same label. -/
def LabelsUnique (r : Placement) : Prop := (r.sites.map fun s => s.block.label).Nodup

theorem startOf?_of_mem (unique : r.LabelsUnique) {s : Site} (hs : s ∈ r.sites) :
    r.startOf? s.block.label = some s.start := by
  rw [startOf?]
  cases found : r.sites.find? fun x => x.block.label = s.block.label with
  | none => exact absurd (List.find?_eq_none.mp found s hs) (by simp)
  | some s' =>
    have same : s'.block.label = s.block.label := by simpa using List.find?_some found
    rw [List.inj_on_of_nodup_map unique (List.mem_of_find?_eq_some found) hs same]
    rfl

theorem startOf?_of_offset? (unique : r.LabelsUnique) {l : Label} {offset : Nat}
    (defined : (Plan.region r.plan).offset? l = some offset) :
    r.startOf? l = some (r.start + offset) := by
  have mem : (l, r.start + offset) ∈ (Plan.region r.plan).labelsAt r.start :=
    List.mem_map_of_mem (Region.mem_labels_of_offset? defined)
  rw [← Plan.map_sites] at mem
  obtain ⟨s, hs, s_eq⟩ := List.mem_map.mp mem
  obtain ⟨rfl, start_eq⟩ := Prod.mk.inj s_eq
  rw [← start_eq]
  exact startOf?_of_mem unique hs

end Placement

/-! ## §4 Parts of a region -/

/-- The plan is laid out and stands at offset `pos` of the region, and its blocks are blocks of the
    region. -/
structure PartOf (code : Bytes) (r : Placement) (pos : Nat) (ns : Plan) : Prop where
  laid : Plan.Laid (fun _ => True) (Plan.region r.plan) pos ns
  stands : Stands code (r.start + pos) (Plan.code (Plan.region r.plan).goal pos ns)
  sites : ∀ s ∈ Plan.sites (r.start + pos) ns, s ∈ r.sites

namespace PartOf

variable {code : Bytes} {r : Placement} {pos : Nat}

theorem of_placed (placed : Plan.Placed code r) : PartOf code r 0 r.plan :=
  ⟨placed.laid, placed.stands, fun _ hs => hs⟩

theorem block {b : Block} {actions exit rest : Plan}
    (part : PartOf code r pos (.block b actions exit :: rest)) :
    ⟨b, r.start + pos, r.start + pos + Plan.size actions⟩ ∈ r.sites
      ∧ PartOf code r pos actions ∧ PartOf code r (pos + Plan.size actions) exit
      ∧ PartOf code r (pos + (Plan.size actions + Plan.size exit)) rest := by
  obtain ⟨laid, stands, sites⟩ := part
  cases laid with
  | block actions_laid exit_laid rest_laid =>
    rw [Plan.code_cons, Plan.nodeCode_block, stands_append, stands_append, List.length_append,
      Plan.length_code, Plan.length_code, Plan.size_block] at stands
    simp only [Plan.sites, Plan.nodeSites, Plan.size_block, List.mem_append, List.mem_cons, or_imp,
      forall_and, forall_eq] at sites
    simp only [Nat.add_assoc] at stands sites ⊢
    obtain ⟨⟨stands_actions, stands_exit⟩, stands_rest⟩ := stands
    obtain ⟨⟨own, sites_actions, sites_exit⟩, sites_rest⟩ := sites
    exact ⟨own, ⟨actions_laid, stands_actions, sites_actions⟩,
      ⟨exit_laid, stands_exit, sites_exit⟩, ⟨rest_laid, stands_rest, sites_rest⟩⟩

theorem record {x : Record} {rest : Plan} (part : PartOf code r pos (.record x :: rest)) :
    x.write.error? = none ∧ Stands code (r.start + pos) x.write.bytes
      ∧ PartOf code r (pos + x.write.bytes.length) rest := by
  obtain ⟨laid, stands, sites⟩ := part
  cases laid with
  | record encodable _ rest_laid =>
    rw [Plan.code_cons, stands_append, Plan.nodeCode_record, Plan.size_record, Nat.add_assoc]
      at stands
    simp only [Plan.sites, Plan.nodeSites, List.nil_append, Plan.size_record, Nat.add_assoc] at sites
    exact ⟨encodable, stands.1, rest_laid, stands.2, sites⟩

/-- A branch reads as one to the block with its label. -/
theorem transfer (unique : r.LabelsUnique) {kind : BranchKind} {l : Label} {rest : Plan}
    (part : PartOf code r pos (.transfer kind l :: rest)) :
    (∃ e target, entryAt code (r.start + pos) = some e ∧ e.code = kind.code
        ∧ e.target = some target ∧ e.stop = r.start + (pos + 5) ∧ r.startOf? l = some target)
      ∧ PartOf code r (pos + 5) rest := by
  obtain ⟨laid, stands, sites⟩ := part
  cases laid with
  | transfer reach rest_laid =>
    rw [Plan.code_cons, stands_append, Plan.length_nodeCode, Plan.size_transfer,
      Plan.nodeCode_transfer, BranchKind.write_record, Nat.add_assoc] at stands
    simp only [Plan.sites, Plan.nodeSites, List.nil_append, Plan.size_transfer, Nat.add_assoc]
      at sites
    obtain ⟨offset, defined⟩ := Option.isSome_iff_exists.mp reach.defined
    have read := entryAt_of_stands stands.1 (kind.frameable _)
      (Plan.targetOf_transfer kind reach r.start)
    refine ⟨⟨_, r.start + offset, read, rfl, ?_, ?_, ?_⟩, rest_laid, stands.2, sites⟩
    · rw [Entry.ofFrame, show (Plan.region r.plan).offset? l = some offset from defined]
      rfl
    · rw [Entry.stop, Entry.size_ofFrame (kind.frameable _),
        Bytes.length_frame _ kind.not_code_lt, Bytes.length_ofInt16]
      simp only [Entry.ofFrame]
      omega
    · exact Placement.startOf?_of_offset? unique defined

theorem within {body : Plan} (part : PartOf code r pos [.within body]) :
    let header := Node.withinHeader (Plan.size body)
    Plan.size body ≤ 65535 ∧ Stands code (r.start + pos) header.write.bytes
      ∧ PartOf code r (pos + header.write.bytes.length) body := by
  intro header
  obtain ⟨laid, stands, sites⟩ := part
  cases laid with
  | within body_laid fits _ =>
    rw [Plan.code_cons, stands_append, Plan.nodeCode_within, stands_append, Nat.add_assoc] at stands
    simp only [Plan.sites, Plan.nodeSites, List.append_nil, Nat.add_assoc] at sites
    exact ⟨fits, stands.1.1, body_laid, stands.1.2, sites⟩

theorem protect {target : Option CatchTarget} {finalized : Bool} {body handler finalizer : Plan}
    (part : PartOf code r pos [.protect target finalized body handler finalizer]) :
    let header := Node.protectHeader target finalized (Plan.size body) (Plan.size handler)
      (Plan.size finalizer)
    let start := pos + header.write.bytes.length
    (∃ h, header = .protect h
        ∧ h.Describes target finalized (Plan.size body) (Plan.size handler) (Plan.size finalizer))
      ∧ header.write.error? = none ∧ Stands code (r.start + pos) header.write.bytes
      ∧ PartOf code r start body ∧ PartOf code r (start + Plan.size body) handler
      ∧ PartOf code r (start + Plan.size body + Plan.size handler) finalizer := by
  intro header start
  obtain ⟨laid, stands, sites⟩ := part
  cases laid with
  | protect header_eq body_laid handler_laid finalizer_laid body_fits handler_fits finalizer_fits
      encodable handler_absent finalizer_absent _ =>
    subst header_eq
    have described : ∃ h, header = .protect h ∧ h.Describes target finalized (Plan.size body)
        (Plan.size handler) (Plan.size finalizer) :=
      TryHeader.exists_describes body_fits handler_fits finalizer_fits
        (fun absent => by rw [handler_absent absent]; rfl)
        (fun absent => by rw [finalizer_absent absent]; rfl)
    rw [Plan.code_cons, stands_append, Plan.nodeCode_protect, stands_append, stands_append,
      stands_append, Plan.length_code, Plan.length_code] at stands
    simp only [Plan.sites, Plan.nodeSites, List.append_nil, List.mem_append, or_imp, forall_and]
      at sites
    obtain ⟨⟨stands_header, stands_body, stands_handler, stands_finalizer⟩, -⟩ := stands
    obtain ⟨sites_body, sites_handler, sites_finalizer⟩ := sites
    refine ⟨described, encodable, stands_header, ?_⟩
    simp only [start, header, Nat.add_assoc] at *
    exact ⟨⟨body_laid, stands_body, sites_body⟩,
      ⟨handler_laid, stands_handler, sites_handler⟩,
      ⟨finalizer_laid, stands_finalizer, sites_finalizer⟩⟩

end PartOf

/-! ## §5 What stands behind a part

A flow needs no bytes to go on at a block that stands right behind it. Lowering compares labels to
find that out, so the label that a part is told to expect has to be the one that stands there. -/

namespace Placement

variable {code : Bytes} {r : Placement} {pos : Nat}

/-- Offset `p` is where the block `l` starts; without a label, it is the end of the region. -/
def Lands (r : Placement) (p : Nat) : Option Label → Prop
  | some l => r.startOf? l = some p
  | none => p = r.stop

theorem startOf?_firstLabel (unique : r.LabelsUnique) {tight : Bool} {n : Option Label}
    {c : List Block} (part : PartOf code r pos (Graph.plan tight n c)) {l : Label}
    (first : Graph.firstLabel? c = some l) : r.startOf? l = some (r.start + pos) := by
  cases c with
  | nil => simp [Graph.firstLabel?] at first
  | cons b rest =>
    obtain ⟨label, actions, flow⟩ := b
    obtain rfl : label = l := by simpa [Graph.firstLabel?] using first
    rw [Graph.plan] at part
    exact startOf?_of_mem unique part.block.1

/-- Before a clause, the first block of the clause is what stands behind; if the clause is empty, it
    is what stands behind the clause. -/
theorem lands_before (unique : r.LabelsUnique) {tight : Bool} {n next : Option Label}
    {c : List Block} (part : PartOf code r pos (Graph.plan tight n c))
    (behind : r.Lands (r.start + (pos + Plan.size (Graph.plan tight n c))) next) :
    r.Lands (r.start + pos) ((Graph.firstLabel? c).or next) := by
  cases c with
  | nil => simpa [Graph.plan, Graph.firstLabel?] using behind
  | cons b rest => exact startOf?_firstLabel unique part rfl

theorem encloses_of_part (unique : r.LabelsUnique) {tight : Bool} {n : Option Label}
    {c : List Block} (part : PartOf code r pos (Graph.plan tight n c)) :
    r.Encloses (r.start + pos) (Plan.size (Graph.plan tight n c)) c where
  first := fun _ first => startOf?_firstLabel unique part first
  bounds := by
    intro s hs inside
    -- The label of a block tells which site it is, so the block is the one in the clause.
    rw [← Graph.map_block_sites tight c n (r.start + pos)] at inside
    obtain ⟨s', hs', block_eq⟩ := List.mem_map.mp inside
    have same : s' = s :=
      List.inj_on_of_nodup_map unique (part.sites s' hs') hs (by rw [block_eq])
    have := Plan.bounds_sites s' hs'
    rw [← same]
    omega
  empty := by
    rintro rfl
    rfl

theorem step_eq_some {p : Nat} {e : Entry} (read : entryAt code p = some e) (holds : Bool) :
    step code holds p
      = if e.code = Code.jump then e.target.map .running
        else if e.code = Code.branch then
          if holds then e.target.map .running else some (.running e.stop)
        else if e.code = Code.stop then some .stopped
        else if e.code = Op.ret.code then some .returned
        else if e.code = Op.throwValue.code then some .raised
        else none := by
  rw [step, read]
  rfl

theorem jumpsTo_of_part (unique : r.LabelsUnique) {l : Label} {rest : Plan}
    (part : PartOf code r pos (.transfer .always l :: rest)) : r.JumpsTo code (r.start + pos) l := by
  obtain ⟨⟨e, target, read, code_eq, target_eq, -, start_eq⟩, -⟩ := part.transfer unique
  have is_jump : e.code = Code.jump := code_eq
  refine ⟨e, target, read, is_jump, start_eq, fun holds => ?_⟩
  rw [step_eq_some read, if_pos is_jump, target_eq]
  rfl

/-- A record with two jumps behind it. -/
theorem jumpPair_of_part (unique : r.LabelsUnique) {x : Record} {ready loading : Label}
    (part : PartOf code r pos [.record x, .transfer .always ready, .transfer .always loading])
    (plain : isBranchCode x.code = false) :
    ∃ e, entryAt code (r.start + pos) = some e ∧ e.code = x.code ∧ e.payload = x.content
      ∧ r.JumpsTo code e.stop ready ∧ r.JumpsTo code (e.stop + 5) loading := by
  obtain ⟨encodable, stands, jumps⟩ := part.record
  have first := jumpsTo_of_part unique jumps
  have second := jumpsTo_of_part unique (jumps.transfer unique).2
  refine ⟨_, entryAt_record stands encodable plain, rfl, rfl, ?_, ?_⟩
  all_goals rw [stop_ofFrame encodable]
  · rwa [Nat.add_assoc]
  · simpa only [Nat.add_assoc] using second

theorem continues_of_part (unique : r.LabelsUnique) {target next : Option Label}
    (part : PartOf code r pos (Plan.continuation target next))
    (behind : r.Lands (r.start + (pos + Plan.size (Plan.continuation target next))) next) :
    r.Continues code (r.start + pos) target := by
  unfold Plan.continuation at part behind
  split at part
  next same =>
    -- Nothing is written: what stands behind is the target itself.
    subst same
    rw [if_pos rfl] at behind
    cases target with
    | none => exact .inl behind
    | some l => exact .inl behind
  next different =>
    cases target with
    | some l => exact .inr (jumpsTo_of_part unique part)
    | none =>
      obtain ⟨encodable, stands, -⟩ := part.record
      have read := entryAt_record stands encodable (by decide)
      exact .inr fun holds => by rw [step_eq_some read]; rfl

end Placement

/-! ## §6 Blocks obey their flows -/

/-- The actions of a block are written where it starts, and from their end on control goes where
    its flow says. -/
structure Realized (code : Bytes) (r : Placement) (s : Site) : Prop where
  actions : ∃ pos, s.start = r.start + pos
    ∧ s.exit = s.start + Plan.size (Graph.actionsPlan false s.block.actions)
    ∧ PartOf code r pos (Graph.actionsPlan false s.block.actions)
  flow : r.Obeys code s.exit s.block.flow

namespace Graph

variable {code : Bytes} {r : Placement}

/-- Control that leaves the actions of a block goes where the flow says. -/
theorem obeys_flow (unique : r.LabelsUnique) {pos : Nat} {next : Option Label} {b : Block}
    {flow : Flow} (part : PartOf code r pos (flowPlan false next b flow))
    (behind : r.Lands (r.start + (pos + Plan.size (flowPlan false next b flow))) next) :
    r.Obeys code (r.start + pos) flow := by
  cases flow with
  | simple target => exact Placement.continues_of_part unique part behind
  | branch onTrue onFalse =>
    rw [flowPlan] at part behind
    obtain ⟨⟨e, target, read, code_eq, target_eq, stop_eq, start_eq⟩, rest⟩ := part.transfer unique
    have is_branch : e.code = Code.branch := code_eq
    rw [Plan.size_cons, Plan.size_transfer, ← Nat.add_assoc pos] at behind
    refine ⟨target, r.start + (pos + 5), start_eq, ?_, ?_,
      Placement.continues_of_part unique rest behind⟩
    · rw [Placement.step_eq_some read, is_branch, target_eq]
      rfl
    · rw [Placement.step_eq_some read, is_branch, stop_eq]
      rfl
  | leave =>
    obtain ⟨encodable, stands, -⟩ := part.record
    have read := entryAt_record stands encodable (by decide)
    exact fun holds => by rw [Placement.step_eq_some read]; rfl
  | raise =>
    obtain ⟨encodable, stands, -⟩ := part.record
    have read := entryAt_record stands encodable (by decide)
    exact fun holds => by rw [Placement.step_eq_some read]; rfl
  | broken note =>
    obtain ⟨encodable, stands, -⟩ := part.record
    exact ⟨_, entryAt_record stands encodable (by decide), rfl, rfl⟩
  | waitForFrame frame ready loading => exact Placement.jumpPair_of_part unique part rfl
  | waitForFrame2 ready loading => exact Placement.jumpPair_of_part unique part rfl
  | within body =>
    rw [flowPlan] at part
    obtain ⟨fits, stands, inside⟩ := part.within
    have encodable := Node.encodable_withinHeader (Plan.size (plan false next body))
    refine ⟨_, UInt16.ofNat (Plan.size (plan false next body)),
      entryAt_record stands encodable rfl, rfl, rfl, ?_⟩
    rw [stop_ofFrame encodable, UInt16.toNat_ofNat_of_lt' (Nat.lt_succ_of_le fits), Nat.add_assoc]
    exact Placement.encloses_of_part unique inside
  | protect t =>
    rw [flowPlan_protect] at part
    obtain ⟨⟨h, header_eq, described⟩, encodable, stands, in_body, in_handler, in_finalizer⟩ :=
      part.protect
    rw [header_eq] at encodable stands in_body in_handler in_finalizer
    refine ⟨_, h, entryAt_record stands encodable rfl, rfl, rfl, described.target_eq,
      described.finalized_eq, ?_, ?_, ?_⟩
    all_goals
      rw [stop_ofFrame encodable]
      simp only [described.body_eq, described.handler_eq, described.finalizer_eq, Nat.add_assoc]
    · exact Placement.encloses_of_part unique in_body
    · simpa only [Nat.add_assoc] using Placement.encloses_of_part unique in_handler
    · simpa only [Nat.add_assoc] using Placement.encloses_of_part unique in_finalizer

/-- All blocks of a list of blocks are realized wherever it is part of the region and followed by
    the block that it was told to expect. -/
def AllRealized (code : Bytes) (r : Placement) (c : List Block) : Prop :=
  ∀ next pos, PartOf code r pos (plan false next c) →
    r.Lands (r.start + (pos + Plan.size (plan false next c))) next →
    ∀ s ∈ Plan.sites (r.start + pos) (plan false next c), Realized code r s

theorem realized_flow (unique : r.LabelsUnique) {flow : Flow}
    (clauses : ∀ c ∈ flow.clauses, AllRealized code r c) {pos : Nat} {next : Option Label}
    {b : Block} (part : PartOf code r pos (flowPlan false next b flow))
    (behind : r.Lands (r.start + (pos + Plan.size (flowPlan false next b flow))) next) :
    ∀ s ∈ Plan.sites (r.start + pos) (flowPlan false next b flow), Realized code r s := by
  cases flow with
  | simple target => simp [flowPlan, sites_continuation]
  | branch onTrue onFalse => simp [flowPlan, Plan.sites, Plan.nodeSites, sites_continuation]
  | within body =>
    rw [flowPlan] at part behind ⊢
    obtain ⟨-, -, inside⟩ := part.within
    rw [Plan.size_cons, Plan.size_within, Plan.size_nil, Nat.add_zero, ← Nat.add_assoc pos] at behind
    simpa only [Plan.sites, Plan.nodeSites, List.append_nil, Nat.add_assoc]
      using clauses body (by simp [Flow.clauses]) next _ inside behind
  | protect t =>
    rw [flowPlan_protect] at part behind ⊢
    obtain ⟨-, -, -, in_body, in_handler, in_finalizer⟩ := part.protect
    rw [Plan.size_cons, Plan.size_protect, Plan.size_nil, Nat.add_zero] at behind
    -- From the last clause to the first: what stands behind one is what stands before the next.
    have behind_finalizer := behind
    simp only [← Nat.add_assoc] at behind_finalizer
    have behind_handler := Placement.lands_before unique in_finalizer
      (by simpa only [Nat.add_assoc] using behind_finalizer)
    rw [firstLabel?_finalizerBlocks_or] at behind_handler
    have behind_body := Placement.lands_before unique in_handler behind_handler
    rw [firstLabel?_handlerBlocks_or] at behind_body
    have of_body := clauses t.body (by simp [Flow.clauses]) _ _ in_body behind_body
    have of_handler := clauses t.handlerBlocks (by simp [Flow.clauses]) _ _ in_handler behind_handler
    have of_finalizer := clauses t.finalizerBlocks (by simp [Flow.clauses]) _ _ in_finalizer
      (by simpa only [Nat.add_assoc] using behind_finalizer)
    simp only [Plan.sites, Plan.nodeSites, List.append_nil, List.mem_append, or_imp, forall_and]
    simp only [Nat.add_assoc] at of_body of_handler of_finalizer ⊢
    exact ⟨of_body, of_handler, of_finalizer⟩
  | _ => simp [flowPlan, Plan.sites, Plan.nodeSites]

/-- Every block of a region is realized. -/
theorem realized_plan (unique : r.LabelsUnique) (g : List Block) : AllRealized code r g := by
  induction g using induction with
  | nil =>
    intro next pos _ _ s hs
    simp [plan, Plan.sites] at hs
  | cons label actions flow rest _ clauses_ih rest_ih =>
    intro next pos part behind s hs
    rw [plan] at part behind hs
    obtain ⟨-, in_actions, in_exit, in_rest⟩ := part.block
    rw [Plan.size_cons, Plan.size_block, ← Nat.add_assoc pos] at behind
    -- Behind the flow stands the rest of the list, or what stands behind the list.
    have behind_flow := Placement.lands_before unique in_rest behind
    rw [← Nat.add_assoc pos] at behind_flow
    simp only [Plan.sites, Plan.nodeSites, sites_actionsPlan, List.nil_append, List.mem_append,
      List.mem_cons, Plan.size_block] at hs
    rcases hs with (rfl | hs) | hs
    · refine ⟨⟨pos, rfl, rfl, in_actions⟩, ?_⟩
      rw [Nat.add_assoc]
      exact obeys_flow unique in_exit behind_flow
    · exact realized_flow unique clauses_ih in_exit behind_flow s (by rwa [← Nat.add_assoc])
    · exact rest_ih next _ in_rest behind s (by rwa [← Nat.add_assoc])

end Graph

/-! ## §7 Valid graphs -/

/-- A graph and the function bodies in it, with the offsets at which their code starts. -/
def Graph.placements (g : Graph) : List Placement :=
  ⟨g, plan false none g, 0⟩ :: Plan.placements 0 (plan false none g)

/-- The code of a region stands where the placement says, and its blocks start where the labels of
    the region were defined when it was emitted. -/
def Placement.Emitted (o : Options) (bytes : Bytes) (r : Placement) : Prop :=
  ∃ region own, (emitBlocks o 0 none r.graph).result = .ok region
    ∧ (region.finish false).result = .ok own
    ∧ Stands bytes r.start own ∧ r.stop = r.start + own.length
    ∧ r.sites.map (fun s => (s.block.label, s.start)) = region.labelsAt r.start

/-- The actions of a block stand where it starts, and from their end on control goes where its flow
    says. -/
structure Site.Follows (o : Options) (bytes : Bytes) (r : Placement) (s : Site) : Prop where
  actions : ∃ own, (emitActions o 0 s.block.actions).result = .ok own
    ∧ Stands bytes s.start own ∧ s.exit = s.start + own.length
  flow : r.Obeys bytes s.exit s.block.flow

section Lowered

variable {o : Options} {bytes : Bytes} {r : Placement}

theorem Placement.emitted_of_placed (kept : o.suppressUnreachableTail = false)
    (plan_eq : r.plan = Graph.plan false none r.graph) (nested : Graph.nesting r.graph ≤ o.maxDepth)
    (placed : Plan.Placed bytes r) : r.Emitted o bytes := by
  obtain ⟨laid, resolvable, stands⟩ := placed
  have tidy := Plan.tidy_region r.plan
  refine ⟨Plan.region r.plan, (Plan.region r.plan).sealed, ?_, ?_, ?_, ?_, Plan.map_sites _ _⟩
  · rw [emitBlocks_eq_ok_iff, kept, ← plan_eq]
    exact ⟨nested, Plan.sound_of_laid laid, rfl⟩
  · exact tidy.finish_eq_ok_iff.mpr ⟨resolvable, (List.append_nil _).symm⟩
  · rw [tidy.sealed_eq_settle resolvable]
    exact stands
  · rw [Region.length_sealed]
    rfl

theorem Site.follows_of_realized (kept : o.suppressUnreachableTail = false) {s : Site}
    (nested : Graph.actionsNesting s.block.actions ≤ o.maxDepth) (realized : Realized bytes r s) :
    s.Follows o bytes r := by
  obtain ⟨⟨pos, start_eq, exit_eq, part⟩, flow⟩ := realized
  refine ⟨⟨_, (emitActions_eq_ok_iff o 0 _ _).mpr ⟨nested, ?_, rfl⟩, ?_, ?_⟩, flow⟩
  · rw [kept]
    exact Plan.sound_of_laid part.laid
  · -- Actions have no open branches, so their code is final as soon as it is emitted.
    have stands := part.stands
    rw [Plan.code, Plan.region_actionsPlan, Region.settle_ofCode] at stands
    rw [kept, start_eq]
    exact stands
  · rw [kept, exit_eq]
    rfl

/-- In the code of a valid graph, control goes from every block where the flow of the block says:
    in the region of the graph and in that of every function body, at any depth of clauses and
    scopes. -/
theorem lowerRegion_follows_flow {g : Graph} {terminate : Bool} (valid : g.validate = .ok ())
    (kept : o.suppressUnreachableTail = false) (lowered : lowerRegion g terminate o = .ok bytes) :
    (g.placements.map Placement.graph).Perm g.regions
      ∧ ∀ r ∈ g.placements, r.Emitted o bytes ∧ r.sites.map Site.block = Graph.layout r.graph
        ∧ ∀ s ∈ r.sites, s.Follows o bytes r := by
  obtain ⟨nested, -, resolvable, -⟩ := lowerRegion_eq_ok_iff.mp lowered
  obtain ⟨laid, bytes_eq⟩ := Plan.laid_of_lowerRegion (p := fun _ => True) lowered fun _ _ => trivial
  rw [kept] at resolvable laid bytes_eq
  have stands : Stands bytes 0 (Plan.code (Plan.region (Graph.plan false none g)).goal 0
      (Graph.plan false none g)) := ⟨_, bytes_eq.symm⟩
  have places : Graph.Places false g.placements g.regions :=
    List.Perm.cons _ (Graph.places_plan false g none 0)
  have placed : ∀ r ∈ g.placements, Plan.Placed bytes r := by
    intro r hr
    rcases List.mem_cons.mp hr with rfl | hr
    · exact ⟨laid, resolvable, stands⟩
    · exact Plan.placed_of_laid laid stands r hr
  refine ⟨by simpa [Function.comp_def] using places.map Prod.fst, fun r hr => ?_⟩
  -- A placement is that of a region of the graph, with the plan of that region.
  obtain ⟨x, hx, pair_eq⟩ := List.mem_map.mp (places.mem_iff.mp (List.mem_map_of_mem hr))
  obtain ⟨rfl, plan_eq⟩ := Prod.mk.inj pair_eq
  have nested_r : Graph.nesting r.graph ≤ o.maxDepth := by
    rcases List.mem_cons.mp hx with same | inner
    · rwa [same]
    · exact Nat.le_trans (Graph.nesting_le_of_mem_innerRegions inner) nested
  have blocks_eq : r.sites.map Site.block = Graph.layout r.graph := by
    rw [Placement.sites, ← plan_eq]
    exact Graph.map_block_sites false r.graph none r.start
  have unique : r.LabelsUnique := by
    have nodup := Graph.nodup_regionLabels valid hx
    rwa [Graph.regionLabels, ← blocks_eq, List.map_map] at nodup
  refine ⟨Placement.emitted_of_placed kept plan_eq.symm nested_r (placed r hr), blocks_eq, ?_⟩
  intro s hs
  have nested_s : Graph.actionsNesting s.block.actions ≤ o.maxDepth := by
    have mem : s.block ∈ Graph.layout r.graph := blocks_eq ▸ List.mem_map_of_mem hs
    exact Nat.le_trans (Graph.actionsNesting_le_of_mem_layout mem) nested_r
  have part := PartOf.of_placed (placed r hr)
  rw [← plan_eq] at part
  refine Site.follows_of_realized kept nested_s
    (Graph.realized_plan unique r.graph none 0 part ?_ s ?_)
  -- The region ends where its code ends.
  · rw [Placement.Lands, Placement.stop, ← plan_eq, Nat.zero_add]
  · rwa [plan_eq]

end Lowered

theorem guardedLoop_follows_flow : guardedLoop.validate = .ok () ∧ ∃ bytes,
    lowerRegion guardedLoop true {} = .ok bytes
      ∧ (guardedLoop.placements.map Placement.graph).Perm guardedLoop.regions
      ∧ ∀ r ∈ guardedLoop.placements, r.Emitted {} bytes
        ∧ r.sites.map Site.block = Graph.layout r.graph ∧ ∀ s ∈ r.sites, s.Follows {} bytes r := by
  have valid : guardedLoop.validate = .ok () := by cbv
  exact ⟨valid, _, lowerRegion_guardedLoop,
    lowerRegion_follows_flow valid rfl lowerRegion_guardedLoop⟩

end ActionFlow
