import ActionFlow.Proofs.Layout

/-!
# Lowered code reads from left to right

A listing knows nothing of regions. It reads one action after the other, and turns the operand of a
branch into an offset of the whole input. Read so, the code of a graph gives back the plan of the
graph: every record, header and branch in the order of the layout, with the branches of a function
body counted from the start of the body. No branch ends up inside an action.

## Main statements

- `Plan.entries`: the entries of a plan that starts at an offset of the input.
- `Reads`: a reader at an offset takes these bytes as these entries, whatever follows.
- `Plan.reads_code`: the code of a plan reads as its entries.
- `disassemble_lowerRegion`: the listing of a lowered graph.
-/

namespace ActionFlow

/-! ## §1 Entries without gaps -/

/-- The entries take up exactly the bytes from the first offset to the second. -/
inductive Spans : List Entry → Nat → Nat → Prop where
  | nil (offset : Nat) : Spans [] offset offset
  | cons {e : Entry} {es : List Entry} {stop : Nat} (behind : Spans es e.stop stop) :
      Spans (e :: es) e.offset stop

theorem Spans.append {es fs : List Entry} {start middle stop : Nat} (h : Spans es start middle)
    (behind : Spans fs middle stop) : Spans (es ++ fs) start stop := by
  induction h with
  | nil offset => exact behind
  | cons _ ih => exact .cons (ih behind)

/-- The offset is that of one of the entries, or lies behind them all. -/
def Marks (es : List Entry) (stop offset : Nat) : Prop :=
  offset = stop ∨ ∃ e ∈ es, e.offset = offset

theorem Spans.marks_start {es : List Entry} {start stop : Nat} (h : Spans es start stop) :
    Marks es stop start := by
  cases h with
  | nil => exact .inl rfl
  | cons behind => exact .inr ⟨_, List.mem_cons_self, rfl⟩

/-- What marks the first entries marks all of them: where they stop, the others start. -/
theorem Marks.append_left {es fs : List Entry} {middle stop offset : Nat}
    (h : Marks es middle offset) (behind : Spans fs middle stop) : Marks (es ++ fs) stop offset := by
  rcases h with rfl | ⟨e, he, rfl⟩
  · rcases behind.marks_start with heq | ⟨e, he, heq⟩
    · exact .inl heq
    · exact .inr ⟨e, List.mem_append_right _ he, heq⟩
  · exact .inr ⟨e, List.mem_append_left _ he, rfl⟩

theorem Marks.append_right {es fs : List Entry} {stop offset : Nat} (h : Marks fs stop offset) :
    Marks (es ++ fs) stop offset := by
  rcases h with rfl | ⟨e, he, rfl⟩
  · exact .inl rfl
  · exact .inr ⟨e, List.mem_append_right _ he, rfl⟩

/-! ## §2 Reading bytes before others -/

/-- A reader at `offset` takes the bytes as the entries, whatever follows them. -/
def Reads (offset : Nat) (bytes : Bytes) (es : List Entry) : Prop :=
  ∀ found rest, entriesFrom offset found (bytes ++ rest)
    = entriesFrom (offset + bytes.length) (es.reverse ++ found) rest

namespace Reads

theorem nil (offset : Nat) : Reads offset [] [] := fun _ _ => rfl

/-- Reading goes on behind bytes that have been read. -/
theorem append {offset middle : Nat} {x y : Bytes} {es fs : List Entry} (first : Reads offset x es)
    (second : Reads middle y fs) (h : middle = offset + x.length) :
    Reads offset (x ++ y) (es ++ fs) := by
  subst h
  intro found rest
  rw [List.append_assoc, first, second]
  simp [Nat.add_assoc]

/-- A record that is no branch is read as it was written. -/
theorem record {offset : Nat} {r : Record} (encodable : r.write.error? = none)
    (plain : isBranchCode r.code = false) :
    Reads offset r.write.bytes [Entry.ofFrame offset r.code r.content none] := by
  obtain ⟨framed, bytes_eq⟩ := Record.write_of_encodable encodable
  intro found rest
  rw [bytes_eq]
  exact entriesFrom_frame framed (by simp [targetOf, plain]) rest

theorem header {offset middle : Nat} {r : Record} {bytes : Bytes} {es : List Entry}
    (encodable : r.write.error? = none) (plain : isBranchCode r.code = false)
    (behind : Reads middle bytes es) (h : middle = offset + r.write.bytes.length) :
    Reads offset (r.write.bytes ++ bytes)
      (Entry.ofFrame offset r.code r.content none :: es) :=
  (record encodable plain).append behind h

/-- Bytes that are read whole have the entries as their listing. -/
theorem disassemble_eq {bytes : Bytes} {es : List Entry} (h : Reads 0 bytes es) :
    disassemble bytes = .ok es := by
  have whole := h [] []
  rw [List.append_nil] at whole
  rw [disassemble, whole]
  simp [entriesFrom]

end Reads

/-! ## §3 The entries of a plan -/

namespace Plan

mutual

/-- The entries of a node at offset `pos` of the region `w`, which starts at `base`. -/
def nodeEntries (w : Region) (base pos : Nat) : Node → List Entry
  | .block _ actions exit => entries w base pos actions ++ entries w base (pos + size actions) exit
  | .record r => [Entry.ofFrame (base + pos) r.code r.content none]
  | .transfer kind target =>
    [Entry.ofFrame (base + pos) kind.code
      (Bytes.ofInt16 (Int16.ofInt ((w.goal (some target) : Int) - ((pos + 5 : Nat) : Int))))
      ((w.offset? target).map (base + ·))]
  | .function f body =>
    let header := Node.functionHeader f (size body)
    Entry.ofFrame (base + pos) header.code header.content none
      :: entries (region body) (base + (pos + header.write.bytes.length)) 0 body
  | .within body =>
    let header := Node.withinHeader (size body)
    Entry.ofFrame (base + pos) header.code header.content none
      :: entries w base (pos + header.write.bytes.length) body
  | .protect target finalized body handler finalizer =>
    let header := Node.protectHeader target finalized (size body) (size handler) (size finalizer)
    let start := pos + header.write.bytes.length
    Entry.ofFrame (base + pos) header.code header.content none
      :: (entries w base start body ++ (entries w base (start + size body) handler
        ++ entries w base (start + size body + size handler) finalizer))

/-- The entries of a plan at offset `pos` of the region `w`, which starts at `base`: each node in
    the order of the layout. A branch reaches the offset that `w` has for its label; the body of a
    function is a region of its own and starts behind the header. -/
def entries (w : Region) (base pos : Nat) : List Node → List Entry
  | [] => []
  | n :: ns => nodeEntries w base pos n ++ entries w base (pos + (nodeRegion n).size) ns

end

/-- The entries of a plan that makes up a whole input, with the stop action that may end it. -/
def listing (terminate : Bool) (ns : Plan) : List Entry :=
  entries (region ns) 0 0 ns
    ++ if terminate then [Entry.ofFrame (size ns) Code.stop [] none] else []

/-! ## §4 The code of a plan reads as its entries -/

theorem reads_transfer {w : Region} {pos : Nat} {target : Label} (kind : BranchKind)
    (reach : w.Reaches (pos + 3) (some target)) (base : Nat) :
    Reads (base + pos) (nodeCode w.goal pos (.transfer kind target))
      (nodeEntries w base pos (.transfer kind target)) := by
  rw [nodeCode_transfer, BranchKind.write_record, nodeEntries]
  intro found rest
  exact entriesFrom_frame (kind.frameable _) (targetOf_transfer kind reach base) rest

theorem isBranchCode_functionHeader (f : Function) (size : Nat) :
    isBranchCode (Node.functionHeader f size).code = false := by
  obtain ⟨header, body⟩ := f
  cases header <;> rfl

theorem reads_code {w : Region} {pos : Nat} {ns : Plan}
    (laid : Laid (fun r => isBranchCode r.code = false) w pos ns) (base : Nat) :
    Reads (base + pos) (code w.goal pos ns) (entries w base pos ns) := by
  induction laid generalizing base with
  | nil => exact .nil _
  | block actions_laid exit_laid rest_laid actions_ih exit_ih rest_ih =>
    rw [code_cons, nodeCode_block, entries, nodeEntries, size_block]
    refine .append (.append (actions_ih base) (exit_ih base) ?_) (rest_ih base) ?_
    · simp [Nat.add_assoc]
    · simp [Nat.add_assoc]
  | record encodable allowed rest_laid rest_ih =>
    rw [code_cons, nodeCode_record, entries, nodeEntries, size_record]
    exact .append (.record encodable allowed) (rest_ih base) (by simp [Nat.add_assoc])
  | transfer reach rest_laid rest_ih =>
    rw [code_cons, entries, size_transfer]
    exact .append (reads_transfer _ reach base) (rest_ih base) (by simp [Nat.add_assoc])
  | @function w pos f body rest body_laid resolvable fits encodable rest_laid body_ih rest_ih =>
    rw [code_cons, nodeCode_function, entries, nodeEntries, size_function,
      (tidy_region body).sealed_eq_settle resolvable]
    -- The offsets of the body count from its first byte.
    have body_reads := body_ih (base + (pos + (Node.functionHeader f (size body)).write.bytes.length))
    rw [Nat.add_zero] at body_reads
    refine .append (.header encodable (isBranchCode_functionHeader f _) body_reads ?_)
      (rest_ih base) ?_
    · rw [Nat.add_assoc]
    · simp [Nat.add_assoc, size]
  | within body_laid fits rest_laid body_ih rest_ih =>
    rw [code_cons, nodeCode_within, entries, nodeEntries, size_within]
    refine .append (.header (Node.encodable_withinHeader _) rfl (body_ih base) ?_) (rest_ih base) ?_
    · simp [Nat.add_assoc]
    · simp [Nat.add_assoc]
  | protect header_eq body_laid handler_laid finalizer_laid body_fits handler_fits finalizer_fits
      encodable handler_absent finalizer_absent rest_laid body_ih handler_ih finalizer_ih rest_ih =>
    rw [code_cons, nodeCode_protect, entries, nodeEntries, size_protect]
    subst header_eq
    refine .append (.header encodable rfl (.append (body_ih base) (.append (handler_ih base)
      (finalizer_ih base) ?_) ?_) ?_) (rest_ih base) ?_
    all_goals simp [Nat.add_assoc]

end Plan

/-! ## §5 Branches land on entries -/

/-- The entries of the region `r`, which stands at offset `pos` of the region `w`: they leave no
    gap, every label of `r` marks one of them or the end, and every branch reaches a label of `w`,
    or is in a function body and reaches a mark inside of it. -/
structure Anchored (w : Region) (base pos : Nat) (r : Region) (es : List Entry) : Prop where
  spans : Spans es (base + pos) (base + (pos + r.size))
  labels : ∀ x ∈ r.labels, Marks es (base + (pos + r.size)) (base + (pos + x.2))
  branches : ∀ e ∈ es, isBranchCode e.code = true → ∃ target, e.target = some target ∧
    ((∃ label offset, w.offset? label = some offset ∧ target = base + offset)
      ∨ Marks es (base + (pos + r.size)) target)

namespace Anchored

theorem append {w : Region} {base pos : Nat} {a b : Region} {es fs : List Entry}
    (first : Anchored w base pos a es) (second : Anchored w base (pos + a.size) b fs) :
    Anchored w base pos (a ++ b) (es ++ fs) := by
  have behind := second.spans
  rw [Nat.add_assoc, ← Region.size_append] at behind
  refine ⟨first.spans.append behind, ?_, ?_⟩
  · intro x hx
    rw [Region.labels_append, List.mem_append, List.mem_map] at hx
    rcases hx with hx | ⟨y, hy, rfl⟩
    · exact (first.labels x hx).append_left behind
    · have marked := second.labels y hy
      rw [Nat.add_assoc, ← Region.size_append, Nat.add_assoc] at marked
      exact marked.append_right
  · intro e he branch
    rcases List.mem_append.mp he with he | he
    · obtain ⟨target, target_eq, outside | inside⟩ := first.branches e he branch
      · exact ⟨target, target_eq, .inl outside⟩
      · exact ⟨target, target_eq, .inr (inside.append_left behind)⟩
    · obtain ⟨target, target_eq, outside | inside⟩ := second.branches e he branch
      · exact ⟨target, target_eq, .inl outside⟩
      · rw [Nat.add_assoc, ← Region.size_append] at inside
        exact ⟨target, target_eq, .inr inside.append_right⟩

theorem empty (w : Region) (base pos : Nat) : Anchored w base pos Region.empty [] :=
  ⟨.nil _, by simp [Region.empty], by simp⟩

theorem define (w : Region) (base pos : Nat) (label : Label) :
    Anchored w base pos (Region.define label) [] :=
  ⟨.nil _, by simp [Region.define, Region.size, Marks], by simp⟩

theorem frame {w : Region} {base pos : Nat} {r : Region} {code : UInt8} {payload : Bytes}
    {target : Option Nat} (framed : Frameable code payload)
    (size_eq : r.size = (Bytes.frame code payload).length) (unlabelled : r.labels = [])
    (reached : isBranchCode code = true → ∃ label offset, w.offset? label = some offset
      ∧ target = some (base + offset)) :
    Anchored w base pos r [Entry.ofFrame (base + pos) code payload target] := by
  have stop_eq : (Entry.ofFrame (base + pos) code payload target).stop = base + (pos + r.size) := by
    rw [Entry.stop, Entry.size_ofFrame framed, size_eq, ← Nat.add_assoc]
    rfl
  refine ⟨.cons (stop_eq ▸ .nil _), by simp [unlabelled], ?_⟩
  intro e he branch
  obtain rfl := List.mem_singleton.mp he
  obtain ⟨label, offset, defined, target_eq⟩ := reached branch
  exact ⟨base + offset, target_eq, .inl ⟨label, offset, defined, rfl⟩⟩

theorem record {w : Region} {base pos : Nat} {r : Record} (encodable : r.write.error? = none)
    (plain : isBranchCode r.code = false) :
    Anchored w base pos (Region.ofCode r.write.bytes)
      [Entry.ofFrame (base + pos) r.code r.content none] := by
  obtain ⟨framed, bytes_eq⟩ := Record.write_of_encodable encodable
  exact frame framed (by rw [bytes_eq]; rfl) rfl (by simp [plain])

/-- The code of a region, embedded in another one: all its branches stay inside. -/
theorem embed {inner : Region} {base pos : Nat} {es : List Entry}
    (h : Anchored inner (base + pos) 0 inner es) (w : Region) :
    Anchored w base pos (Region.ofCode inner.sealed) es := by
  have size_eq : base + (pos + (Region.ofCode inner.sealed).size) = base + pos + (0 + inner.size) := by
    rw [Region.size_ofCode, Region.length_sealed, Nat.zero_add, Nat.add_assoc]
  refine ⟨size_eq ▸ h.spans, by simp [Region.ofCode], ?_⟩
  intro e he branch
  obtain ⟨target, target_eq, ⟨label, offset, defined, rfl⟩ | inside⟩ := h.branches e he branch
  · have marked := h.labels (label, offset) (Region.mem_labels_of_offset? defined)
    rw [← size_eq, Nat.zero_add] at marked
    exact ⟨_, target_eq, .inr marked⟩
  · exact ⟨target, target_eq, .inr (size_eq ▸ inside)⟩

end Anchored

namespace Plan

theorem anchored_transfer {w : Region} {pos : Nat} {target : Label} (kind : BranchKind)
    (reach : w.Reaches (pos + 3) (some target)) (base : Nat) :
    Anchored w base pos (nodeRegion (.transfer kind target))
      (nodeEntries w base pos (.transfer kind target)) := by
  obtain ⟨offset, defined⟩ := Option.isSome_iff_exists.mp reach.defined
  have defined' : w.offset? target = some offset := defined
  refine .frame (kind.frameable _) ?_ rfl fun _ => ⟨target, offset, defined', ?_⟩
  · rw [size_transfer, Bytes.length_frame _ kind.not_code_lt, Bytes.length_ofInt16]
  · rw [defined', Option.map_some]

theorem anchored_entries {w : Region} {pos : Nat} {ns : Plan}
    (laid : Laid (fun r => isBranchCode r.code = false) w pos ns) (base : Nat) :
    Anchored w base pos (region ns) (entries w base pos ns) := by
  induction laid generalizing base with
  | nil => exact .empty ..
  | block actions_laid exit_laid rest_laid actions_ih exit_ih rest_ih =>
    rw [entries, region]
    refine .append ?_ (by rw [size_block]; exact rest_ih base)
    rw [nodeEntries, nodeRegion]
    exact (Anchored.define ..).append ((actions_ih base).append (exit_ih base))
  | record encodable allowed rest_laid rest_ih =>
    rw [entries, region]
    refine .append ?_ (by rw [size_record]; exact rest_ih base)
    exact .record encodable allowed
  | transfer reach rest_laid rest_ih =>
    rw [entries, region]
    exact .append (anchored_transfer _ reach base) (by rw [size_transfer]; exact rest_ih base)
  | @function w pos f body rest body_laid resolvable fits encodable rest_laid body_ih rest_ih =>
    rw [entries, region]
    refine .append ?_ (by rw [size_function]; exact rest_ih base)
    rw [nodeEntries, nodeRegion, Region.ofCode_append]
    exact (Anchored.record encodable (isBranchCode_functionHeader f _)).append
      (Anchored.embed (body_ih _) w)
  | within body_laid fits rest_laid body_ih rest_ih =>
    rw [entries, region]
    refine .append ?_ (by rw [size_within]; exact rest_ih base)
    rw [nodeEntries, nodeRegion]
    exact (Anchored.record (Node.encodable_withinHeader _) rfl).append (body_ih base)
  | protect header_eq body_laid handler_laid finalizer_laid body_fits handler_fits finalizer_fits
      encodable handler_absent finalizer_absent rest_laid body_ih handler_ih finalizer_ih rest_ih =>
    subst header_eq
    rw [entries, region]
    refine .append ?_ (by rw [size_protect]; exact rest_ih base)
    rw [nodeEntries, nodeRegion]
    exact (Anchored.record encodable rfl).append
      ((body_ih base).append ((handler_ih base).append (finalizer_ih base)))

end Plan

/-! ## §6 The listing of a graph -/

namespace Plan

/-- The stop action that may end an input, as an entry. -/
theorem reads_terminator (terminate : Bool) (offset : Nat) :
    Reads offset (Region.terminator terminate)
      (if terminate then [Entry.ofFrame offset Code.stop [] none] else []) := by
  cases terminate with
  | false => exact .nil offset
  | true => exact Reads.record (r := .stop) (by simp) rfl

theorem anchored_terminator (w : Region) (terminate : Bool) (pos : Nat) :
    Anchored w 0 pos (Region.ofCode (Region.terminator terminate))
      (if terminate then [Entry.ofFrame pos Code.stop [] none] else []) := by
  cases terminate with
  | false => exact .empty w 0 pos
  | true =>
    have stop : Anchored w 0 pos (Region.ofCode Record.stop.write.bytes)
        [Entry.ofFrame (0 + pos) Code.stop [] none] := .record (r := .stop) (by simp) rfl
    rwa [Nat.zero_add] at stop

/-- Every branch of a listing reaches an entry or the end. -/
theorem marks_listing {ns : Plan} (laid : Laid (fun r => isBranchCode r.code = false) (region ns) 0 ns)
    (terminate : Bool) :
    ∀ e ∈ listing terminate ns, isBranchCode e.code = true → ∃ target, e.target = some target
      ∧ Marks (listing terminate ns) (size ns + (Region.terminator terminate).length) target := by
  have whole := (anchored_entries laid 0).append
    (by rw [Nat.zero_add]; exact anchored_terminator (region ns) terminate (region ns).size)
  intro e he branch
  obtain ⟨target, target_eq, ⟨label, offset, defined, rfl⟩ | inside⟩ := whole.branches e he branch
  · -- The label belongs to the region, whether a stop action follows or not.
    have marked := whole.labels (label, offset)
      (List.mem_append_left _ (Region.mem_labels_of_offset? defined))
    exact ⟨_, target_eq, by simpa [listing, size] using marked⟩
  · exact ⟨target, target_eq, by simpa [listing, size] using inside⟩

end Plan

/-- The code of a graph without raw branches reads as the listing of its plan, with the offsets of
    the region that was emitted. Every branch reaches an entry, or the end of the code. -/
theorem disassemble_lowerRegion {g : Graph} {terminate : Bool} {o : Options} {bytes : Bytes}
    (avoids : g.AvoidsRaw [Code.branch, Code.jump])
    (lowered : lowerRegion g terminate o = .ok bytes) :
    let ns := Graph.plan o.suppressUnreachableTail none g
    (emitBlocks o 0 none g).result = .ok (Plan.region ns)
      ∧ disassemble bytes = .ok (Plan.listing terminate ns)
      ∧ ∀ e ∈ Plan.listing terminate ns, isBranchCode e.code = true →
        ∃ target, e.target = some target
          ∧ Marks (Plan.listing terminate ns) bytes.length target := by
  intro ns
  have plain : ∀ r ∈ Plan.records ns, isBranchCode r.code = false := by
    intro r hr
    have free := Graph.code_not_mem_of_avoidsRaw avoids (by decide) _ _ r hr
    simpa [isBranchCode] using free
  obtain ⟨laid, rfl⟩ := Plan.laid_of_lowerRegion lowered plain
  obtain ⟨fits, sound, -, -⟩ := lowerRegion_eq_ok_iff.mp lowered
  refine ⟨(emitBlocks_eq_ok_iff o 0 none g _).mpr ⟨fits, sound, rfl⟩, ?_, ?_⟩
  · have reads := Plan.reads_code laid 0
    exact (reads.append (Plan.reads_terminator terminate _) (by simp [ns])).disassemble_eq
  · simpa using Plan.marks_listing laid terminate

theorem disassemble_guardedLoop :
    guardedLoop.AvoidsRaw [Code.branch, Code.jump] ∧ ∃ bytes,
      lowerRegion guardedLoop true {} = .ok bytes
        ∧ disassemble bytes = .ok (Plan.listing true (Graph.plan false none guardedLoop)) :=
  have avoids : guardedLoop.AvoidsRaw [Code.branch, Code.jump] := by decide +kernel
  ⟨avoids, _, lowerRegion_guardedLoop, (disassemble_lowerRegion avoids lowerRegion_guardedLoop).2.1⟩

end ActionFlow
