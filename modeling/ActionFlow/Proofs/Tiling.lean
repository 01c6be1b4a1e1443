import ActionFlow.Proofs.Layout
import Mathlib

/-!
# Sub-regions tile the code

The headers of functions, scopes and tries declare how many of the bytes behind them belong to their
sub-regions. A reader that goes by these sizes alone cuts lowered code into a tree of actions, and
the tree has the shape of the plan: every declared size is the number of bytes that were written,
clauses follow each other without a gap, and each sub-region is a whole number of actions.

## Main statements

- `Tree`, `readTrees`: actions with their sub-regions, and the reader that finds them by sizes.
- `Plan.trees`: the tree of a plan, with the sizes of its parts.
- `Recovers`: the reader takes these bytes as these trees, whatever follows.
- `readTrees_lowerRegion`: the reader finds the tree of the plan in the code of a graph.
-/

namespace ActionFlow

/-! ## §1 Reading by sizes -/

/-- An action with the sub-regions behind it. -/
inductive Tree where
  | action (code : UInt8)
  /-- A function or a scope, with the declared size of its body. -/
  | scope (code : UInt8) (size : Nat) (body : List Tree)
  /-- A try, with the declared sizes of the clauses that it declares. -/
  | protect (size : Nat) (body : List Tree) (handler finalizer : Option (Nat × List Tree))
deriving Repr

/-- What an action declares about the bytes behind it. -/
inductive Opening where
  | closed
  | scope (size : Nat)
  | clauses (body : Nat) (handler finalizer : Option Nat)
deriving DecidableEq, Repr

/-- A clause by its flag and its size; the size of an absent clause has to be zero. -/
def clauseSize? (present : Bool) (size : Nat) : Option (Option Nat) :=
  if present then some (some size) else if size = 0 then some none else none

/-- What an action declares. The size of a function body is the last word of the payload. -/
def opening? (code : UInt8) (payload : Bytes) : Option Opening :=
  if code = Code.within then
    match payload with
    | [lo, hi] => some (.scope (Bytes.word lo hi))
    | _ => none
  else if code = Code.defineFunction ∨ code = Code.defineFunction2 then
    match payload.reverse with
    | hi :: lo :: _ => some (.scope (Bytes.word lo hi))
    | _ => none
  else if code = Code.protect then
    match payload with
    | flags :: b :: b' :: h :: h' :: f :: f' :: _ => do
      let handler ← clauseSize? (flags.toNat.testBit 0) (Bytes.word h h')
      let finalizer ← clauseSize? (flags.toNat.testBit 1) (Bytes.word f f')
      some (.clauses (Bytes.word b b') handler finalizer)
    | _ => none
  else some .closed

/-- The payload of the action with the given code, where `rest` follows the code byte. -/
def payload? (code : UInt8) (rest : Bytes) : Option Bytes :=
  if code < 0x80 then some []
  else
    match rest with
    | lo :: hi :: body =>
      if body.length < Bytes.word lo hi then none else some (body.take (Bytes.word lo hi))
    | _ => none

/-- The actions of a byte string with their sub-regions, each cut out by its declared size. -/
def readTrees : Bytes → Option (List Tree)
  | [] => some []
  | code :: rest => do
    let payload ← payload? code rest
    let behind := rest.drop ((Bytes.frame code payload).length - 1)
    match ← opening? code payload with
    | .closed =>
      let others ← readTrees behind
      some (.action code :: others)
    | .scope size =>
      guard (size ≤ behind.length)
      let body ← readTrees (behind.take size)
      let others ← readTrees (behind.drop size)
      some (.scope code size body :: others)
    | .clauses size handler finalizer =>
      let handlerSize := handler.getD 0
      let finalizerSize := finalizer.getD 0
      guard (size + handlerSize + finalizerSize ≤ behind.length)
      let body ← readTrees (behind.take size)
      let handlerTrees ← readTrees ((behind.drop size).take handlerSize)
      let finalizerTrees ← readTrees ((behind.drop (size + handlerSize)).take finalizerSize)
      let others ← readTrees (behind.drop (size + handlerSize + finalizerSize))
      some (.protect size body (handler.map (·, handlerTrees)) (finalizer.map (·, finalizerTrees))
        :: others)
termination_by bytes => bytes.length
decreasing_by all_goals simp only [List.length_take, List.length_drop, List.length_cons]; omega

/-! ## §2 Reading bytes before others -/

/-- The reader takes the bytes as the trees, whatever follows them. -/
def Recovers (bytes : Bytes) (ts : List Tree) : Prop :=
  ∀ rest, readTrees (bytes ++ rest) = (readTrees rest).map (ts ++ ·)

theorem payload?_frame {code : UInt8} {payload : Bytes} (framed : Frameable code payload)
    (rest : Bytes) : payload? code ((Bytes.frame code payload).tail ++ rest) = some payload := by
  unfold payload? Bytes.frame
  by_cases short : code < 0x80
  · simp [short, framed.short short]
  · simp only [short, if_false, List.tail_cons, Bytes.ofUInt16, List.cons_append, List.nil_append,
      Bytes.word_ofNat framed.long]
    simp

theorem drop_frame (code : UInt8) (payload rest : Bytes) :
    ((Bytes.frame code payload).tail ++ rest).drop ((Bytes.frame code payload).length - 1) = rest := by
  rw [← List.length_tail, List.drop_left]

namespace Recovers

theorem nil : Recovers [] [] := fun rest => by simp

theorem append {x y : Bytes} {ts us : List Tree} (first : Recovers x ts) (second : Recovers y us) :
    Recovers (x ++ y) (ts ++ us) := by
  intro rest
  rw [List.append_assoc, first, second, Option.map_map]
  simp [Function.comp_def]

/-- Bytes that are taken whole are read to their end. -/
theorem readTrees_eq {bytes : Bytes} {ts : List Tree} (h : Recovers bytes ts) :
    readTrees bytes = some ts := by
  have whole := h []
  rw [List.append_nil] at whole
  rw [whole]
  simp [readTrees]

theorem action {r : Record} (encodable : r.write.error? = none)
    (closed : opening? r.code r.content = some .closed) :
    Recovers r.write.bytes [.action r.code] := by
  obtain ⟨framed, bytes_eq⟩ := Record.write_of_encodable encodable
  intro rest
  rw [bytes_eq, Bytes.frame_eq_cons, List.cons_append, readTrees, payload?_frame framed]
  simp only [Option.bind_eq_bind, Option.bind_some, closed, drop_frame]
  cases readTrees rest <;> simp

theorem scope {r : Record} {size : Nat} {body : Bytes} {ts : List Tree}
    (encodable : r.write.error? = none) (opened : opening? r.code r.content = some (.scope size))
    (inside : Recovers body ts) (length_eq : body.length = size) :
    Recovers (r.write.bytes ++ body) [.scope r.code size ts] := by
  obtain ⟨framed, bytes_eq⟩ := Record.write_of_encodable encodable
  subst length_eq
  intro rest
  rw [bytes_eq, Bytes.frame_eq_cons, List.append_assoc, List.cons_append, readTrees,
    payload?_frame framed]
  simp only [Option.bind_eq_bind, Option.bind_some, opened, drop_frame, List.take_left,
    List.drop_left, inside.readTrees_eq]
  cases readTrees rest <;> simp [guard]

theorem clauses {r : Record} {size : Nat} {handlerSize finalizerSize : Option Nat}
    {body handler finalizer : Bytes} {ts us vs : List Tree} (encodable : r.write.error? = none)
    (opened : opening? r.code r.content = some (.clauses size handlerSize finalizerSize))
    (in_body : Recovers body ts) (in_handler : Recovers handler us)
    (in_finalizer : Recovers finalizer vs) (body_length : body.length = size)
    (handler_length : handler.length = handlerSize.getD 0)
    (finalizer_length : finalizer.length = finalizerSize.getD 0) :
    Recovers (r.write.bytes ++ (body ++ (handler ++ finalizer)))
      [.protect size ts (handlerSize.map (·, us)) (finalizerSize.map (·, vs))] := by
  obtain ⟨framed, bytes_eq⟩ := Record.write_of_encodable encodable
  subst body_length
  intro rest
  rw [bytes_eq, Bytes.frame_eq_cons, List.append_assoc, List.cons_append, readTrees,
    payload?_frame framed]
  -- What is left behind each clause starts with the next one.
  simp only [Option.bind_eq_bind, Option.bind_some, opened, drop_frame, ← handler_length,
    ← finalizer_length, List.append_assoc, ← List.drop_drop, List.take_left, List.drop_left,
    in_body.readTrees_eq, in_handler.readTrees_eq, in_finalizer.readTrees_eq]
  cases readTrees rest <;> simp [guard, Nat.add_assoc]

end Recovers

/-! ## §3 What headers declare -/

theorem opening?_of_not_mem {code : UInt8} (payload : Bytes)
    (h : code ∉ [Code.within, Code.defineFunction, Code.defineFunction2, Code.protect]) :
    opening? code payload = some .closed := by
  simp only [List.mem_cons, List.not_mem_nil, or_false, not_or] at h
  simp [opening?, h]

theorem opening?_within {n : Nat} (fits : n ≤ 65535) :
    opening? Code.within (Node.withinHeader n).content = some (.scope n) := by
  show opening? Code.within (Bytes.ofUInt16 (UInt16.ofNat n)) = _
  simp only [opening?, if_true, Bytes.ofUInt16, Bytes.word_ofNat fits]

/-- The payload of a function definition ends with the size of the body. -/
theorem FunctionHeader.payload_eq_append {header : FunctionHeader} {size : UInt16} {payload : Bytes}
    (h : header.payload size = .ok payload) : ∃ front, payload = front ++ Bytes.ofUInt16 size := by
  cases header with
  | classic name parameters =>
    obtain ⟨count, -, h⟩ := bind_eq_ok_iff.mp h
    obtain rfl := pure_eq_ok_iff.mp h
    exact ⟨_, rfl⟩
  | registers name registerCount flags parameters =>
    obtain ⟨count, -, h⟩ := bind_eq_ok_iff.mp h
    obtain rfl := pure_eq_ok_iff.mp h
    exact ⟨Bytes.ofTerminatedText name ++ Bytes.ofUInt16 count ++ registerCount
      :: (Bytes.ofUInt16 flags.bits
        ++ parameters.flatMap fun p => p.register :: Bytes.ofTerminatedText p.name), by simp⟩

theorem opening?_function {f : Function} {n : Nat} (fits : n ≤ 65535)
    (encodable : (Node.functionHeader f n).write.error? = none) :
    opening? (Node.functionHeader f n).code (Node.functionHeader f n).content
      = some (.scope n) := by
  have code_cases : (Node.functionHeader f n).code = Code.defineFunction
      ∨ (Node.functionHeader f n).code = Code.defineFunction2 := by
    obtain ⟨header, body⟩ := f
    cases header with
    | classic name parameters => exact .inl rfl
    | registers name registerCount flags parameters => exact .inr rfl
  have long : ¬ (Node.functionHeader f n).code < 0x80 := by
    rcases code_cases with h | h <;> rw [h] <;> decide
  have other : (Node.functionHeader f n).code ≠ Code.within := by
    rcases code_cases with h | h <;> rw [h] <;> decide
  obtain ⟨front, content_eq⟩ :=
    FunctionHeader.payload_eq_append (Record.payload_of_encodable encodable long)
  unfold opening?
  rw [if_neg other, if_pos code_cases, content_eq]
  simp only [Bytes.ofUInt16, List.reverse_append, List.reverse_cons, List.reverse_nil,
    List.nil_append, List.cons_append, Bytes.word_ofNat fits]

theorem testBit_flags (a b c : Bool) :
    (UInt8.ofNat (Bytes.ofFlags [a, b, c])).toNat.testBit 0 = a
      ∧ (UInt8.ofNat (Bytes.ofFlags [a, b, c])).toNat.testBit 1 = b := by
  revert a b c
  decide

/-- The flag of an absent clause is clear and its size is zero; the flag of a clause that is there
    is set, whatever its size. -/
theorem opening?_tryHeader (h : TryHeader) :
    opening? Code.protect h.payload = some (.clauses h.bodySize.toNat
      (h.handler.map fun clause => clause.2.toNat) (h.finalizerSize.map UInt16.toNat)) := by
  obtain ⟨bodySize, handler, finalizerSize⟩ := h
  have other : Code.protect ≠ Code.within ∧ Code.protect ≠ Code.defineFunction
      ∧ Code.protect ≠ Code.defineFunction2 := by decide
  unfold opening? TryHeader.payload
  simp only [other, if_true, if_false, or_self, Bytes.ofUInt16, List.cons_append, List.nil_append,
    testBit_flags, Bytes.word_ofUInt16]
  rcases handler with _ | ⟨target, size⟩ <;> rcases finalizerSize with _ | size'
  all_goals simp [clauseSize?]

theorem opening?_protect {target : Option CatchTarget} {finalized : Bool}
    {body handler finalizer : Nat} (body_fits : body ≤ 65535) (handler_fits : handler ≤ 65535)
    (finalizer_fits : finalizer ≤ 65535) :
    opening? Code.protect (Node.protectHeader target finalized body handler finalizer).content
      = some (.clauses body (target.map fun _ => handler)
          (if finalized then some finalizer else none)) := by
  have word_eq : ∀ n, n ≤ 65535 → (UInt16.ofNat n).toNat = n := fun n h => by
    rw [UInt16.toNat_ofNat']
    omega
  refine (opening?_tryHeader _).trans ?_
  cases finalized <;>
    simp [word_eq body body_fits, word_eq handler handler_fits, word_eq finalizer finalizer_fits,
      Function.comp_def]

/-! ## §4 The tree of a plan -/

namespace Plan

mutual

/-- The trees of a node. -/
def nodeTrees : Node → List Tree
  | .block _ actions exit => trees actions ++ trees exit
  | .record r => [.action r.code]
  | .transfer kind _ => [.action kind.code]
  | .function f body => [.scope f.header.code (size body) (trees body)]
  | .within body => [.scope Code.within (size body) (trees body)]
  | .protect target finalized body handler finalizer =>
    [.protect (size body) (trees body) (target.map fun _ => (size handler, trees handler))
      (if finalized then some (size finalizer, trees finalizer) else none)]

/-- The actions of a plan with their sub-regions, and the number of bytes that each sub-region
    takes. -/
def trees : List Node → List Tree
  | [] => []
  | n :: ns => nodeTrees n ++ trees ns

end

theorem recovers_code {w : Region} {pos : Nat} {ns : Plan}
    (laid : Laid (fun r => r.code ∉
      [Code.within, Code.defineFunction, Code.defineFunction2, Code.protect]) w pos ns) :
    Recovers (code w.goal pos ns) (trees ns) := by
  induction laid with
  | nil => exact .nil
  | block actions_laid exit_laid rest_laid actions_ih exit_ih rest_ih =>
    rw [code_cons, nodeCode_block, trees, nodeTrees, size_block]
    exact (actions_ih.append exit_ih).append rest_ih
  | record encodable allowed rest_laid rest_ih =>
    rw [code_cons, nodeCode_record, trees, nodeTrees, size_record]
    exact .append (.action encodable (opening?_of_not_mem _ allowed)) rest_ih
  | @transfer w pos kind target rest reach rest_laid rest_ih =>
    rw [code_cons, nodeCode_transfer, trees, nodeTrees, size_transfer]
    have closed : kind.code ∉ [Code.within, Code.defineFunction, Code.defineFunction2,
        Code.protect] := by
      cases kind <;> decide
    rw [← kind.code_record] at closed ⊢
    exact .append (.action (by simp) (opening?_of_not_mem _ closed)) rest_ih
  | @function w pos f body rest body_laid resolvable fits encodable rest_laid body_ih rest_ih =>
    rw [code_cons, nodeCode_function, trees, nodeTrees, size_function,
      (tidy_region body).sealed_eq_settle resolvable]
    refine .append (.scope encodable (opening?_function fits encodable) body_ih ?_) rest_ih
    exact length_code _ _ _
  | within body_laid fits rest_laid body_ih rest_ih =>
    rw [code_cons, nodeCode_within, trees, nodeTrees, size_within]
    refine .append (.scope (Node.encodable_withinHeader _) (opening?_within fits) body_ih ?_) rest_ih
    exact length_code _ _ _
  | @protect w pos target finalized body handler finalizer rest header header_eq body_laid
      handler_laid finalizer_laid body_fits handler_fits finalizer_fits encodable handler_absent
      finalizer_absent rest_laid body_ih handler_ih finalizer_ih rest_ih =>
    subst header_eq
    rw [code_cons, nodeCode_protect, trees, nodeTrees, size_protect]
    have opened := @opening?_protect target finalized _ _ _ body_fits handler_fits finalizer_fits
    have clauses := Recovers.clauses encodable opened body_ih handler_ih finalizer_ih
      (length_code _ _ _) (by cases target <;> simp_all) (by cases finalized <;> simp_all)
    refine .append ?_ rest_ih
    rw [Option.map_map, apply_ite (Option.map _)] at clauses
    exact clauses

end Plan

/-! ## §5 The tree of a graph -/

/-- A reader that goes by the declared sizes finds the tree of the plan in the code of a graph
    without raw headers, and the stop action that may end the code. -/
theorem readTrees_lowerRegion {g : Graph} {terminate : Bool} {o : Options} {bytes : Bytes}
    (avoids : g.AvoidsRaw [Code.within, Code.defineFunction, Code.defineFunction2, Code.protect])
    (lowered : lowerRegion g terminate o = .ok bytes) :
    readTrees bytes = some (Plan.trees (Graph.plan o.suppressUnreachableTail none g)
      ++ if terminate then [.action Code.stop] else []) := by
  have plain := Graph.code_not_mem_of_avoidsRaw avoids (by decide) o.suppressUnreachableTail none
  obtain ⟨laid, rfl⟩ := Plan.laid_of_lowerRegion lowered plain
  have stop : Recovers (Region.terminator terminate)
      (if terminate then [.action Code.stop] else []) := by
    cases terminate with
    | false => exact .nil
    | true => exact .action (r := .stop) (by simp) (opening?_of_not_mem _ (by decide))
  exact ((Plan.recovers_code laid).append stop).readTrees_eq

theorem readTrees_guardedLoop :
    guardedLoop.AvoidsRaw [Code.within, Code.defineFunction, Code.defineFunction2, Code.protect]
      ∧ ∃ bytes, lowerRegion guardedLoop true {} = .ok bytes
        ∧ readTrees bytes = some [.scope Code.defineFunction 9 [.action Code.push, .action Code.branch],
          .protect 6 [.scope Code.within 1 [.action 0x17]] (some (0, []))
            (some (1, [.action Code.stop])),
          .action 0x42, .action Code.branch, .action Code.stop] := by
  have avoids : guardedLoop.AvoidsRaw
      [Code.within, Code.defineFunction, Code.defineFunction2, Code.protect] := by decide +kernel
  refine ⟨avoids, _, lowerRegion_guardedLoop, ?_⟩
  rw [readTrees_lowerRegion avoids lowerRegion_guardedLoop]
  cbv

end ActionFlow
