import ActionFlow.Proofs.Emission
import ActionFlow.Proofs.Scanning

/-!
# Decoding records

Every record that the format describes by a layout of its own can be read back from its bytes,
whatever follows them: the code byte chooses the layout, the frame delimits the payload, and the
layout reads the operands. Two records with encodings that start one byte string are therefore the
same record.

Left out are actions that are given as raw bytes, and those that have no encoding. A text that holds
a zero character is not delimited by its closing zero byte.

## Main statements

- `Record.Readable`: a record that has a layout, and texts without zero characters.
- `Instruction.layouts`, `Record.layout?`: how the operands of each code are read.
- `Record.decode`: the record at the start of a byte string.
- `Record.finds_decode`: the decoder inverts the encoder.
- `encode_uniquely_decodable`: one byte string, one record.
-/

namespace ActionFlow

open Scan

/-! ## §1 Readable records -/

/-- The texts of a pushed value. -/
def Operand.texts : Operand → List String
  | text s => [s]
  | _ => []

/-- The texts among the operands of an instruction. -/
def Instruction.texts : Instruction → List String
  | constantPool pool => pool
  | getUrl url target => [url, target]
  | gotoLabel label => [label]
  | push values => values.flatMap Operand.texts
  | setTarget name => [name]
  | _ => []

/-- The texts of a function header. -/
def FunctionHeader.texts : FunctionHeader → List String
  | classic name parameters => name :: parameters
  | registers name _ _ parameters => name :: parameters.map Parameter.name

/-- The texts of a try header. -/
def TryHeader.texts (h : TryHeader) : List String :=
  match h.handler with
  | some (.named name, _) => [name]
  | _ => []

namespace Record

/-- The texts among the operands of a record. -/
def texts : Record → List String
  | action (.plain i) => i.texts
  | function header _ => header.texts
  | protect header => header.texts
  | _ => []

/-- Whether the format has a layout for a record: it is not given as raw bytes, it is not an error,
    and a function definition has its lowered body. -/
def hasLayout : Record → Bool
  | action (.plain (.raw _ _)) => false
  | action (.plain (.error _)) => false
  | action (.define _) => false
  | _ => true

/-- A record that has a layout, and texts that a zero byte closes. -/
structure Readable (r : Record) : Prop where
  hasLayout : r.hasLayout = true
  closed : ∀ s ∈ r.texts, '\x00' ∉ s.toList

end Record

/-! ## §2 Operands -/

/-- A truth value in a byte. -/
def truth : Scan Bool :=
  (· != 0) <$> byte

theorem finds_truth (b : Bool) : truth.Finds [b.toUInt8] b := by
  have found := (finds_byte b.toUInt8).map (· != 0)
  cases b <;> exact found

/-- A pushed value. -/
def operand : Scan Operand := do
  match ← byte with
  | 0 => .text <$> text
  | 1 => (.single ⟨·⟩) <$> longWord
  | 2 => pure .null
  | 3 => pure .undefined
  | 4 => .register <$> byte
  | 5 => .boolean <$> truth
  | 6 => (.double ⟨·⟩) <$> halves
  | 7 => .integer <$> signedLongWord
  | 8 => (.constant ·.toUInt16) <$> byte
  | 9 => .constant <$> word
  | _ => failure

theorem finds_operand {o : Operand} (closed : ∀ s ∈ o.texts, '\x00' ∉ s.toList) :
    operand.Finds o.bytes o := by
  cases o with
  | text s => exact (finds_byte 0).bind ((finds_text (closed s List.mem_cons_self)).map _)
  | single x => exact (finds_byte 1).bind ((finds_longWord x.bits).map _)
  | null => exact (finds_byte 2).bind (.pure _)
  | undefined => exact (finds_byte 3).bind (.pure _)
  | register r => exact (finds_byte 4).bind ((finds_byte r).map _)
  | boolean b => exact (finds_byte 5).bind ((finds_truth b).map _)
  | double x => exact (finds_byte 6).bind ((finds_halves x.bits).map _)
  | integer n => exact (finds_byte 7).bind ((finds_signedLongWord n).map _)
  | constant c =>
    -- A small index is stored in one byte; the kind byte tells the two forms apart.
    rw [Operand.bytes]
    by_cases small : c ≤ 255
    · have widened : c.toUInt8.toUInt16 = c := by
        apply UInt16.toNat.inj
        have bound : c.toNat ≤ 255 := UInt16.le_iff_toNat_le.mp small
        simp only [UInt8.toNat_toUInt16, UInt16.toNat_toUInt8]
        omega
      have found := (finds_byte c.toUInt8).map fun b => Operand.constant b.toUInt16
      rw [widened] at found
      rw [if_pos small]
      exact (finds_byte 8).bind found
    · rw [if_neg small]
      exact (finds_byte 9).bind ((finds_word c).map _)

theorem Operand.bytes_ne_nil (o : Operand) : o.bytes ≠ [] := by
  cases o with
  | constant c =>
    rw [bytes]
    split <;> exact List.cons_ne_nil _ _
  | _ => exact List.cons_ne_nil _ _

/-- The method of a request and the two flags beside it. -/
def request : Scan Instruction := do
  let flags ← byte
  match UrlMethod.all[(flags >>> 6).toNat]? with
  | some method => pure (.getUrl2 method (flags.toNat.testBit 1) (flags.toNat.testBit 0))
  | none => failure

theorem finds_request (method : UrlMethod) (loadTarget loadVariables : Bool) :
    request.Finds [UInt8.ofNat (Bytes.ofFlags [loadVariables, loadTarget]) ||| (method.code <<< 6)]
      (.getUrl2 method loadTarget loadVariables) := by
  cases method <;> cases loadTarget <;> cases loadVariables <;> exact fun _ => rfl

/-- A frame of a scene; the bias is stored only if it is not zero. -/
def sceneFrame : Scan Instruction := do
  let flags ← byte
  let bias ← if flags.toNat.testBit 1 then word else pure 0
  pure (.gotoFrame2 (flags.toNat.testBit 0) bias)

theorem finds_sceneFrame {play : Bool} {bias : UInt16} {body : Bytes}
    (payload_eq : (Instruction.gotoFrame2 play bias).payload = .ok body) :
    sceneFrame.Finds body (.gotoFrame2 play bias) := by
  obtain rfl := pure_eq_ok_iff.mp payload_eq
  by_cases biased : bias = 0
  · subst biased
    cases play <;> exact fun _ => rfl
  · -- The second flag announces the bias, so the same flag decides whether a word is read.
    have flagged : (bias != 0) = true := by simpa using biased
    simp only [flagged, if_true]
    have found := (finds_word bias).last (f := Instruction.gotoFrame2 play)
    cases play <;> exact (finds_byte _).bind found

/-! ## §3 Instructions -/

namespace Instruction

/-- How the operands of each instruction are read. -/
def operandLayouts : List (UInt8 × Scan Instruction) := [
  (Code.gotoFrame, .gotoFrame <$> word),
  (Code.getUrl, do
    let url ← text
    let target ← text
    pure (.getUrl url target)),
  (Code.storeRegister, .storeRegister <$> byte),
  (Code.constantPool, do
    let count ← word
    let pool ← counted text count.toNat
    pure (.constantPool pool)),
  (Code.strictMode, .strictMode <$> truth),
  (Code.setTarget, .setTarget <$> text),
  (Code.gotoLabel, .gotoLabel <$> text),
  (Code.push, .push <$> toEnd operand),
  (Code.getUrl2, request),
  (Code.gotoFrame2, sceneFrame)]

/-- How instructions are read, those without operands included. -/
def layouts : List (UInt8 × Scan Instruction) :=
  operandLayouts ++ Op.all.map fun o => (o.code, pure (.op o))

end Instruction

theorem Op.mem_all (o : Op) : o ∈ Op.all := by
  cases o <;> decide

theorem Op.code_injective : Function.Injective Op.code := by
  have distinct : (Op.all.map Op.code).Nodup := by decide
  intro o p same
  exact List.inj_on_of_nodup_map distinct o.mem_all p.mem_all same

namespace Instruction

/-- No operation has the code of an instruction with operands. -/
theorem lookup_layouts_op (o : Op) : layouts.lookup o.code = some (pure (.op o)) := by
  have other : operandLayouts.lookup o.code = none := by
    cases o <;> rfl
  -- The first entry with the code of `o` is its own, as no two operations share a code.
  have found : ∀ ops : List Op, o ∈ ops →
      (ops.map fun p => (p.code, (pure (.op p) : Scan Instruction))).lookup o.code
        = some (pure (.op o)) := by
    intro ops mem
    induction ops with
    | nil => cases mem
    | cons p ops ih =>
      by_cases same : o = p
      · subst same
        simp
      · have differs : (o.code == p.code) = false := by
          simpa using fun h => same (Op.code_injective h)
        rw [List.map_cons, List.lookup_cons, differs]
        exact ih (List.mem_of_ne_of_mem same mem)
  rw [layouts, List.lookup_append, other, found _ o.mem_all]
  rfl

/-- The payload of an instruction is read back by the layout for its code. -/
theorem layout_finds {i : Instruction} {body : Bytes}
    (described : (Record.action (.plain i)).hasLayout = true)
    (closed : ∀ s ∈ i.texts, '\x00' ∉ s.toList) (payload_eq : i.payload = .ok body) :
    ∃ layout, layouts.lookup i.code = some layout ∧ layout.FindsWhole body i := by
  cases i with
  | op o =>
    obtain rfl := pure_eq_ok_iff.mp payload_eq
    exact ⟨_, lookup_layouts_op o, (Finds.pure _).whole⟩
  | constantPool pool =>
    obtain ⟨count, count_eq, payload_eq⟩ := bind_eq_ok_iff.mp payload_eq
    obtain ⟨fits, rfl⟩ := sizeWord_eq_ok_iff.mp count_eq
    obtain rfl := pure_eq_ok_iff.mp payload_eq
    have items := finds_countedWord fits fun s hs => finds_text (closed s hs)
    exact ⟨_, rfl, ((finds_word _).bind items.last).whole⟩
  | error note => cases described
  | getUrl url target =>
    obtain rfl := pure_eq_ok_iff.mp payload_eq
    refine ⟨_, rfl, ((finds_text ?_).bind (finds_text ?_).last).whole⟩
    · exact closed url (by simp [texts])
    · exact closed target (by simp [texts])
  | getUrl2 method loadTarget loadVariables =>
    obtain rfl := pure_eq_ok_iff.mp payload_eq
    exact ⟨_, rfl, (finds_request method loadTarget loadVariables).whole⟩
  | gotoFrame frame =>
    obtain rfl := pure_eq_ok_iff.mp payload_eq
    exact ⟨_, rfl, ((finds_word frame).map _).whole⟩
  | gotoFrame2 play sceneBias => exact ⟨_, rfl, (finds_sceneFrame payload_eq).whole⟩
  | gotoLabel label =>
    obtain rfl := pure_eq_ok_iff.mp payload_eq
    exact ⟨_, rfl, ((finds_text (closed label List.mem_cons_self)).map _).whole⟩
  | push values =>
    -- A push has no count: its values go on to the end of the payload.
    obtain rfl := pure_eq_ok_iff.mp payload_eq
    refine ⟨_, rfl, (findsWhole_toEnd ?_ Operand.bytes_ne_nil).map _⟩
    intro o mem
    apply finds_operand
    intro s hs
    exact closed s (List.mem_flatMap.mpr ⟨o, mem, hs⟩)
  | raw code data => cases described
  | setTarget name =>
    obtain rfl := pure_eq_ok_iff.mp payload_eq
    exact ⟨_, rfl, ((finds_text (closed name List.mem_cons_self)).map _).whole⟩
  | storeRegister index =>
    obtain rfl := pure_eq_ok_iff.mp payload_eq
    exact ⟨_, rfl, ((finds_byte index).map _).whole⟩
  | strictMode strict =>
    obtain rfl := pure_eq_ok_iff.mp payload_eq
    exact ⟨_, rfl, ((finds_truth strict).map _).whole⟩

end Instruction

/-! ## §4 Headers of sub-regions -/

namespace FunctionFlags

/-- The flags of a word, from the lowest bit up. -/
def ofWord (w : UInt16) : FunctionFlags :=
  let bit := w.toNat.testBit
  ⟨bit 0, bit 1, bit 2, bit 3, bit 4, bit 5, bit 6, bit 7, bit 8⟩

theorem ofWord_bits (f : FunctionFlags) : ofWord f.bits = f := by
  have few : f.toList.length ≤ 16 := by simp [toList]
  simp only [ofWord, bits, testBit_flagWord few]
  rfl

end FunctionFlags

namespace FunctionHeader

/-- The header of a function whose parameters are passed by name, and the size of its body. -/
def classicLayout : Scan (FunctionHeader × UInt16) := do
  let name ← text
  let count ← word
  let parameters ← counted text count.toNat
  let bodySize ← word
  pure (.classic name parameters, bodySize)

/-- A parameter with its register. -/
def parameter : Scan Parameter := do
  let register ← byte
  let name ← text
  pure ⟨register, name⟩

/-- The header of a function whose parameters may be passed in registers, and the size of its
    body. -/
def registersLayout : Scan (FunctionHeader × UInt16) := do
  let name ← text
  let count ← word
  let registerCount ← byte
  let flags ← word
  let parameters ← counted parameter count.toNat
  let bodySize ← word
  pure (.registers name registerCount (.ofWord flags) parameters, bodySize)

theorem finds_classicLayout {name : String} {parameters : List String} {bodySize : UInt16}
    {body : Bytes} (closed : ∀ s ∈ (classic name parameters).texts, '\x00' ∉ s.toList)
    (payload_eq : (classic name parameters).payload bodySize = .ok body) :
    classicLayout.Finds body (.classic name parameters, bodySize) := by
  obtain ⟨count, count_eq, payload_eq⟩ := bind_eq_ok_iff.mp payload_eq
  obtain ⟨fits, rfl⟩ := sizeWord_eq_ok_iff.mp count_eq
  obtain rfl := pure_eq_ok_iff.mp payload_eq
  have named := finds_text (closed name List.mem_cons_self)
  have items := finds_countedWord fits fun s hs =>
    finds_text (closed s (List.mem_cons_of_mem _ hs))
  simp only [List.append_assoc]
  exact named.bind ((finds_word _).bind (items.bind (finds_word bodySize).last))

theorem finds_parameter {p : Parameter} (closed : '\x00' ∉ p.name.toList) :
    parameter.Finds (p.register :: Bytes.ofTerminatedText p.name) p :=
  (finds_byte p.register).bind (finds_text closed).last

theorem finds_registersLayout {name : String} {registerCount : UInt8} {flags : FunctionFlags}
    {parameters : List Parameter} {bodySize : UInt16} {body : Bytes}
    (closed : ∀ s ∈ (registers name registerCount flags parameters).texts, '\x00' ∉ s.toList)
    (payload_eq : (registers name registerCount flags parameters).payload bodySize = .ok body) :
    registersLayout.Finds body (.registers name registerCount flags parameters, bodySize) := by
  obtain ⟨count, count_eq, payload_eq⟩ := bind_eq_ok_iff.mp payload_eq
  obtain ⟨fits, rfl⟩ := sizeWord_eq_ok_iff.mp count_eq
  obtain rfl := pure_eq_ok_iff.mp payload_eq
  have named := finds_text (closed name List.mem_cons_self)
  have items := finds_countedWord fits fun p hp =>
    finds_parameter (closed p.name (List.mem_cons_of_mem _ (List.mem_map_of_mem hp)))
  have found : registersLayout.Finds _
      (.registers name registerCount (.ofWord flags.bits) parameters, bodySize) :=
    named.bind ((finds_word _).bind ((finds_byte registerCount).bind
      ((finds_word flags.bits).bind (items.bind (finds_word bodySize).last))))
  rw [FunctionFlags.ofWord_bits] at found
  simpa only [List.append_assoc, List.cons_append, List.nil_append] using found

end FunctionHeader

namespace TryHeader

/-- Where a caught value goes; without a catch clause, the field is passed over. -/
def target (caught inRegister : Bool) : Scan (Option CatchTarget) :=
  match caught, inRegister with
  | false, _ => (fun _ => none) <$> byte
  | true, true => (fun index => some (.register index)) <$> byte
  | true, false => (fun name => some (.named name)) <$> text

/-- The header of a try. The flags say which clauses there are, and what the last field is. -/
def layout : Scan TryHeader := do
  let flags ← byte
  let bodySize ← word
  let handlerSize ← word
  let finalizerSize ← word
  let target ← target (flags.toNat.testBit 0) (flags.toNat.testBit 2)
  pure ⟨bodySize, target.map (·, handlerSize),
    if flags.toNat.testBit 1 then some finalizerSize else none⟩

theorem finds_layout_of_target {caught inRegister : Bool} {bodySize a : UInt16}
    {finalizerSize : Option UInt16} {x : Bytes} {t : Option CatchTarget}
    (found : (target caught inRegister).Finds x t) :
    layout.Finds (UInt8.ofNat (Bytes.ofFlags [caught, finalizerSize.isSome, inRegister])
        :: (Bytes.ofUInt16 bodySize ++ Bytes.ofUInt16 a ++ Bytes.ofUInt16 (finalizerSize.getD 0)
          ++ x))
      ⟨bodySize, t.map (·, a), finalizerSize⟩ := by
  have flag := testBit_flagByte (show [caught, finalizerSize.isSome, inRegister].length ≤ 8 by simp)
  have finalized : (if finalizerSize.isSome then some (finalizerSize.getD 0) else none)
      = finalizerSize := by
    cases finalizerSize <;> rfl
  simp only [List.append_assoc]
  -- The flags are read before everything that they decide.
  refine (finds_byte _).bind ((finds_word bodySize).bind ((finds_word a).bind
    ((finds_word (finalizerSize.getD 0)).bind ?_)))
  simp only [flag, List.getD_cons_zero, List.getD_cons_succ, finalized]
  exact found.last

theorem finds_layout {h : TryHeader} (closed : ∀ s ∈ h.texts, '\x00' ∉ s.toList) :
    layout.Finds h.payload h := by
  obtain ⟨bodySize, handler, finalizerSize⟩ := h
  rcases handler with _ | ⟨index | name, size⟩
  · -- Without a catch clause there still is a byte for its register.
    refine finds_layout_of_target (t := none) ?_
    exact (finds_byte 0).map _
  · refine finds_layout_of_target (t := some (.register index)) ?_
    exact (finds_byte index).map _
  · refine finds_layout_of_target (t := some (.named name)) ?_
    exact (finds_text (closed name List.mem_cons_self)).map _

end TryHeader

/-! ## §5 Records -/

namespace Record

/-- How the operands of control flow are read. -/
def flowLayouts : List (UInt8 × Scan Record) := [
  (Code.stop, pure stop),
  (Code.branch, branch <$> Scan.signedWord),
  (Code.jump, jump <$> Scan.signedWord),
  (Code.within, within <$> word),
  (Code.waitForFrame, do
    let frame ← word
    let skip ← byte
    pure (waitForFrame frame skip)),
  (Code.waitForFrame2, waitForFrame2 <$> byte),
  (Code.protect, protect <$> TryHeader.layout),
  (Code.defineFunction, (fun f => function f.1 f.2) <$> FunctionHeader.classicLayout),
  (Code.defineFunction2, (fun f => function f.1 f.2) <$> FunctionHeader.registersLayout)]

/-- How records are read, by their codes. -/
def layout? (code : UInt8) : Option (Scan Record) :=
  match flowLayouts.lookup code with
  | some layout => some layout
  | none =>
    (Instruction.layouts.lookup code).map fun layout => (fun i => action (.plain i)) <$> layout

/-- The code and the payload of an action. -/
def framed : Scan (UInt8 × Bytes) := do
  let code ← byte
  if code < 0x80 then pure (code, [])
  else
    let size ← word
    let payload ← bytes size.toNat
    pure (code, payload)

/-- The record at the start of a byte string. Its layout has to read the payload to the end. -/
def decode : Scan Record := do
  let (code, payload) ← framed
  match (layout? code).bind (·.run payload) with
  | some (r, []) => pure r
  | _ => failure

theorem finds_framed {code : UInt8} {payload : Bytes} (h : Frameable code payload) :
    framed.Finds (Bytes.frame code payload) (code, payload) := by
  unfold Bytes.frame framed
  by_cases short : code < 0x80
  · rw [if_pos short, h.short short]
    refine (finds_byte code).bind (y := []) ?_
    rw [if_pos short]
    exact .pure _
  · have fits := UInt16.toNat_ofNat_of_lt' (Nat.lt_succ_of_le h.long)
    rw [if_neg short]
    refine (finds_byte code).bind ?_
    rw [if_neg short]
    exact (finds_word _).bind (finds_bytes fits.symm).last

/-- An instruction does not have a code of control flow. -/
theorem lookup_flowLayouts_of_instruction {i : Instruction}
    (described : (action (.plain i)).hasLayout = true) : flowLayouts.lookup i.code = none := by
  cases i with
  | op o => cases o <;> rfl
  | error note => cases described
  | raw code data => cases described
  | _ => rfl

/-- Only operations and the end of the code have short codes, and they have no operands. -/
theorem payload_eq_content {r : Record} (described : r.hasLayout = true)
    (encodable : r.write.error? = none) : r.payload = .ok r.content := by
  by_cases short : r.code < 0x80
  · have operandless : r.payload = .ok [] := by
      cases r with
      | action a =>
        cases a with
        | define f => cases described
        | plain i =>
          cases i with
          | op o => rfl
          | raw code data => cases described
          | error note => cases described
          | _ => exact absurd short (by simp [code, Action.code, Instruction.code]; decide)
      | stop => rfl
      | function header bodySize =>
        cases header <;> exact absurd short (by simp [code, FunctionHeader.code]; decide)
      | _ => exact absurd short (by simp [code]; decide)
    rw [operandless, content, if_pos short]
  · exact payload_of_encodable encodable short

/-- The payload of a record is read back by the layout for its code. -/
theorem layout_finds {r : Record} {body : Bytes} (readable : r.Readable)
    (payload_eq : r.payload = .ok body) :
    ∃ layout, layout? r.code = some layout ∧ layout.FindsWhole body r := by
  cases r with
  | action a =>
    cases a with
    | define f => cases readable.hasLayout
    | plain i =>
      obtain ⟨layout, layout_eq, found⟩ :=
        Instruction.layout_finds readable.hasLayout readable.closed payload_eq
      -- Control flow is looked up first, so it must not take this code.
      refine ⟨_, ?_, found.map fun i => action (.plain i)⟩
      simp [layout?, code, Action.code, lookup_flowLayouts_of_instruction readable.hasLayout,
        layout_eq]
  | function header bodySize =>
    cases header with
    | classic name parameters =>
      have found := FunctionHeader.finds_classicLayout readable.closed payload_eq
      exact ⟨_, rfl, (found.map _).whole⟩
    | registers name registerCount flags parameters =>
      have found := FunctionHeader.finds_registersLayout readable.closed payload_eq
      exact ⟨_, rfl, (found.map _).whole⟩
  | stop =>
    obtain rfl := pure_eq_ok_iff.mp payload_eq
    exact ⟨_, rfl, (Finds.pure _).whole⟩
  | branch offset =>
    obtain rfl := pure_eq_ok_iff.mp payload_eq
    exact ⟨_, rfl, ((finds_signedWord offset).map _).whole⟩
  | jump offset =>
    obtain rfl := pure_eq_ok_iff.mp payload_eq
    exact ⟨_, rfl, ((finds_signedWord offset).map _).whole⟩
  | protect header =>
    obtain rfl := pure_eq_ok_iff.mp payload_eq
    exact ⟨_, rfl, ((TryHeader.finds_layout readable.closed).map _).whole⟩
  | within size =>
    obtain rfl := pure_eq_ok_iff.mp payload_eq
    exact ⟨_, rfl, ((finds_word size).map _).whole⟩
  | waitForFrame frame skip =>
    obtain rfl := pure_eq_ok_iff.mp payload_eq
    exact ⟨_, rfl, ((finds_word frame).bind (finds_byte skip).last).whole⟩
  | waitForFrame2 skip =>
    obtain rfl := pure_eq_ok_iff.mp payload_eq
    exact ⟨_, rfl, ((finds_byte skip).map _).whole⟩

/-- A readable record is read back from its encoding, whatever follows. -/
theorem finds_decode {r : Record} {code : Bytes} (readable : r.Readable)
    (encoded : r.encode = .ok code) : decode.Finds code r := by
  obtain ⟨encodable, rfl⟩ := encode_eq_ok_iff.mp encoded
  obtain ⟨frameable, bytes_eq⟩ := write_of_encodable encodable
  obtain ⟨layout, layout_eq, found⟩ :=
    layout_finds readable (payload_eq_content readable.hasLayout encodable)
  rw [bytes_eq, ← List.append_nil (Bytes.frame r.code r.content)]
  refine (finds_framed frameable).bind ?_
  -- The frame hands over the payload alone, and the layout leaves nothing of it.
  have read : (layout? r.code).bind (·.run r.content) = some (r, []) := by
    rw [layout_eq]
    exact found
  simp only [read]
  exact .pure r

end Record

/-- The decoder takes the encoding of a readable record off the front of any byte string. So two
    readable records whose encodings start one byte string are the same record, operand by operand,
    and leave the same rest. -/
theorem encode_uniquely_decodable {a b : Record} {x y s t : Bytes} (readable : a.Readable)
    (readable' : b.Readable) (encoded : a.encode = .ok x) (encoded' : b.encode = .ok y) :
    Record.decode.run (x ++ s) = some (a, s) ∧ (x ++ s = y ++ t → s = t ∧ a = b) := by
  have found := Record.finds_decode readable encoded
  have found' := Record.finds_decode readable' encoded'
  exact ⟨found s, found.unique found'⟩

/-- A push of one value of each kind, with both forms of constants. -/
def mixedPush : Record :=
  .action (.plain (.push [.text "naïve", .constant 255, .constant 256, .null, .undefined,
    .double ⟨0x3ff8000000000000⟩, .single ⟨0x3f800000⟩, .integer (-2), .boolean true, .register 3]))

/-- The bytes of the push: its code, the length of the payload, and the values. -/
def mixedPushBytes : Bytes :=
  [0x96, 38, 0, 0, 0x6e, 0x61, 0xc3, 0xaf, 0x76, 0x65, 0, 8, 255, 9, 0, 1, 2, 3,
    6, 0, 0, 0xf8, 0x3f, 0, 0, 0, 0, 1, 0, 0, 0x80, 0x3f, 7, 0xfe, 0xff, 0xff, 0xff, 5, 1, 4, 3]

theorem mixedPush_uniquely_decodable :
    mixedPush.Readable ∧ mixedPush.encode = .ok mixedPushBytes
      ∧ Record.decode.run (mixedPushBytes ++ [0x3e]) = some (mixedPush, [0x3e]) := by
  have readable : mixedPush.Readable := ⟨rfl, by decide⟩
  have encoded : mixedPush.encode = .ok mixedPushBytes := by decide
  refine ⟨readable, encoded, ?_⟩
  exact (encode_uniquely_decodable (t := []) readable readable encoded encoded).1

end ActionFlow
