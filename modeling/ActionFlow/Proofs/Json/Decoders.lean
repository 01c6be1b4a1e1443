import ActionFlow.Json.Parse
import ActionFlow.Json.Variant
import ActionFlow.Proofs.Json.Values

/-!
# What decoders find

A decoder finds something in a value in two ways: it reads the text of the value, or it takes the
value. `Decoder.Finds` says that both ways succeed with the same result. The relation is kept by
every way in which decoders are built: by lists and options, by the fields of records, and by the
three forms of choices.

## Main statements

- `Decoder.Finds`: what a decoder finds in a value.
- `Shape.Holds`: the entries of an object hold the fields of a record, one after another.
- `InnerTagged.finds`, `AdjacentTagged.finds_unit`, `AdjacentTagged.finds_payload`: choices.
- `Decoder.Finds.parse`: what is found in a value is what the text of the value means.
-/

namespace ActionFlow.Json

open Reader (Takes Reads ReadsTo ReadsElement ReadsEntries)

variable {α β σ τ : Type}

/-- The decoder finds the result in the value, both when it reads the text of the value, given room
    enough, and when it takes the value itself. -/
structure Decoder.Finds (d : Decoder α) (v : Value) (a : α) : Prop where
  exact : v.Exact
  reads : ∀ {room : Nat}, v.depth ≤ room → Reads (d.read room) v.chars a
  decodes : d.decode v = .ok a

namespace Decoder

/-! ## §1 Single values -/

theorem Finds.map {d : Decoder α} {v : Value} {a : α} (f : α → β) (h : d.Finds v a) :
    (d.map f).Finds v (f a) where
  exact := h.exact
  reads fits := (h.reads fits).map f
  decodes := by
    simp only [Decoder.map, h.decodes]
    rfl

theorem finds_text (s : String) : Decoder.text.Finds (.text s) s where
  exact := .text s
  reads _ := fun rest _ => Reader.takes_text s rest
  decodes := rfl

theorem finds_boolean (b : Bool) : Decoder.boolean.Finds (.boolean b) b where
  exact := .boolean b
  reads _ := by cases b <;> exact fun _ _ => rfl
  decodes := rfl

theorem finds_integer {expected : String} {least greatest n : Int} {make : Int → α}
    (whole : IsWhole n) (bounds : least ≤ n ∧ n ≤ greatest) :
    (integer expected least greatest make).Finds (.integer n) (make n) where
  exact := .integer whole
  reads _ := by
    intro rest closes
    obtain ⟨c, s, chars_eq, starts⟩ := integerChars_eq_cons n
    have read := Reader.reads_numeral whole rest closes
    rw [Value.chars, chars_eq, List.cons_append] at *
    rw [integer, numeral, Reader.run_peekToken_bind starts.opens.not_blank]
    simp only [show (c = '-' || isDigit c) = true from starts, if_true, Reader.run_bind, read,
      if_pos bounds]
    rfl
  decodes := if_pos bounds

theorem finds_uint8 (n : UInt8) : uint8.Finds (.integer n.toNat) n := by
  have bound := n.toNat_lt
  have found : uint8.Finds (.integer n.toNat) (UInt8.ofNat (n.toNat : Int).toNat) :=
    finds_integer (by unfold IsWhole; omega) (by omega)
  rwa [Int.toNat_natCast, UInt8.ofNat_toNat] at found

theorem finds_uint16 (n : UInt16) : uint16.Finds (.integer n.toNat) n := by
  have bound := n.toNat_lt
  have found : uint16.Finds (.integer n.toNat) (UInt16.ofNat (n.toNat : Int).toNat) :=
    finds_integer (by unfold IsWhole; omega) (by omega)
  rwa [Int.toNat_natCast, UInt16.ofNat_toNat] at found

theorem finds_int32 (n : Int32) : int32.Finds (.integer n.toInt) n := by
  have lower := n.le_toInt
  have upper := n.toInt_lt
  have found : int32.Finds (.integer n.toInt) (Int32.ofInt n.toInt) :=
    finds_integer (by unfold IsWhole; omega) (by omega)
  rwa [Int32.ofInt_toInt] at found

/-! ## §2 Options and lists -/

theorem finds_none {d : Decoder α} : (option d).Finds .null none where
  exact := .null
  reads _ := fun _ _ => rfl
  decodes := rfl

/-- Something that is there, and not written with the letter with which null starts. -/
theorem Finds.some {d : Decoder α} {v : Value} {a : α} (h : d.Finds v a)
    (solid : v.chars.head? ≠ Option.some 'n') : (option d).Finds v (Option.some a) where
  exact := h.exact
  reads fits := by
    intro rest closes
    have read := (h.reads fits).map Option.some rest closes
    obtain ⟨c, s, chars_eq, opens⟩ := h.exact.chars_eq_cons
    rw [chars_eq] at solid read ⊢
    rw [List.cons_append] at read ⊢
    rw [option, Reader.run_peekToken_bind opens.not_blank]
    -- The first character alone decides whether null is read.
    split
    · next heq => exact absurd heq solid
    · exact read
  decodes := by
    have decoded : Option.some <$> d.decode v = .ok (Option.some a) := by
      rw [h.decodes]
      rfl
    cases v with
    | null => exact absurd rfl solid
    | _ => exact decoded

section Lists

variable {d : Decoder α} {vs : List Value} {as : List α}

theorem exact_items (each : List.Forall₂ d.Finds vs as) : ∀ v ∈ vs, v.Exact := by
  induction each with
  | nil => simp
  | cons head tail ih => exact List.forall_mem_cons.mpr ⟨head.exact, ih⟩

theorem reads_items {room : Nat} (each : List.Forall₂ d.Finds vs as)
    (inside : ∀ v ∈ vs, v.depth ≤ room) : List.Forall₂ (ReadsElement (d.read room)) vs as := by
  induction each with
  | nil => exact .nil
  | cons head tail ih =>
    obtain ⟨first, others⟩ := List.forall_mem_cons.mp inside
    exact .cons ⟨head.exact, head.reads first⟩ (ih others)

theorem decodes_items (each : List.Forall₂ d.Finds vs as) : vs.mapM d.decode = .ok as := by
  induction each with
  | nil => rfl
  | cons head tail ih =>
    rw [List.mapM_cons, head.decodes, ih]
    rfl

theorem finds_list (each : List.Forall₂ d.Finds vs as) : (list d).Finds (.list vs) as where
  exact := .list (exact_items each)
  reads {room} fits := by
    cases room with
    | zero => simp [Value.depth] at fits
    | succ room =>
      have inside := Value.itemsDepth_le_iff.mp (Nat.le_of_succ_le_succ fits)
      exact (Reader.readsTo_elements (reads_items each inside)).listBody.reads
  decodes := decodes_items each

/-- Elements that are written one by one. -/
theorem finds_map {f : α → Value} (each : ∀ a ∈ as, d.Finds (f a) a) :
    (list d).Finds (.list (as.map f)) as := by
  apply finds_list
  rw [List.forall₂_map_left_iff, List.forall₂_same]
  exact each

end Lists

end Decoder

/-! ## §3 Records -/

/-- An entry gives a field that the draft does not have yet. -/
structure FillsField (fields : List (Field σ)) (draft : σ) (e : String × Value) (f : Field σ)
    (set : σ → σ) : Prop where
  named : fields.find? (·.name == e.1) = some f
  missing : f.given draft = false
  found : f.decoder.Finds e.2 set

/-- Entries fill a draft one after another. -/
inductive Fills (fields : List (Field σ)) : σ → List (String × Value) → σ → Prop
  | nil (draft : σ) : Fills fields draft [] draft
  | cons {draft final : σ} {e : String × Value} {es : List (String × Value)} {f : Field σ}
    {set : σ → σ} (head : FillsField fields draft e f set)
    (tail : Fills fields (set draft) es final) : Fills fields draft (e :: es) final

namespace Fills

variable {fields : List (Field σ)} {draft final : σ} {es : List (String × Value)}

theorem append {middle : σ} {es' : List (String × Value)} (first : Fills fields draft es middle)
    (second : Fills fields middle es' final) : Fills fields draft (es ++ es') final := by
  induction first with
  | nil => exact second
  | cons head tail ih => exact .cons head (ih second)

theorem exact (h : Fills fields draft es final) : ∀ e ∈ es, e.2.Exact := by
  induction h with
  | nil => simp
  | cons head tail ih => exact List.forall_mem_cons.mpr ⟨head.found.exact, ih⟩

theorem foldlM_takeEntry (h : Fills fields draft es final) :
    es.foldlM (Shape.takeEntry fields) draft = .ok final := by
  induction h with
  | nil => rfl
  | @cons draft final e es f set head tail ih =>
    have taken : Shape.takeEntry fields draft e = .ok (set draft) := by
      simp only [Shape.takeEntry, head.named, head.missing, head.found.decodes]
      rfl
    rw [List.foldlM_cons, taken]
    exact ih

theorem readsEntries (h : Fills fields draft es final) {room : Nat}
    (inside : ∀ e ∈ es, e.2.depth ≤ room) :
    ReadsEntries (Shape.readEntry fields room) draft es final := by
  induction h with
  | nil draft => exact .nil draft
  | @cons draft final e es f set head tail ih =>
    obtain ⟨first, others⟩ := List.forall_mem_cons.mp inside
    refine .cons ?_ (ih others)
    simp only [Shape.readEntry, head.named, head.missing]
    exact Reader.takes_colon.bind_reads (head.found.reads first).bind_pure

/-- A single field is filled by the entry of its name. -/
theorem single {name : String} {required : Bool} {d : Decoder α} {v : Value} {x : α}
    (h : d.Finds v x) :
    Fills [⟨name, required, Option.isSome, d.map fun a _ => some a⟩] none [(name, v)] (some x) := by
  have head : FillsField [⟨name, required, Option.isSome, d.map fun a _ => some a⟩] none (name, v)
      ⟨name, required, Option.isSome, d.map fun a _ => some a⟩ (fun _ => some x) :=
    ⟨by simp, rfl, h.map _⟩
  exact .cons head (.nil (some x))

/-- The fields of the first of two records are filled in the first part of a joint draft. -/
theorem inFirst (h : Fills fields draft es final) (others : List (Field (σ × τ))) (t : τ) :
    Fills (fields.map Field.inFirst ++ others) (draft, t) es (final, t) := by
  induction h with
  | nil draft => exact .nil (draft, t)
  | @cons draft final e es f set head tail ih =>
    refine .cons (f := f.inFirst) ⟨?_, head.missing, head.found.map _⟩ ih
    have named : (fields.map (@Field.inFirst σ τ)).find? (·.name == e.1) = some f.inFirst := by
      rw [List.find?_map]
      exact congrArg (Option.map Field.inFirst) head.named
    rw [List.find?_append, named]
    rfl

/-- The fields of the second of two records are filled in the second part of a joint draft, if the
    first has no field of their names. -/
theorem inSecond (h : Fills fields draft es final) {others : List (Field τ)} (t : τ)
    (fresh : ∀ e ∈ es, e.1 ∉ others.map Field.name) :
    Fills (others.map Field.inFirst ++ fields.map Field.inSecond) (t, draft) es (t, final) := by
  induction h with
  | nil draft => exact .nil (t, draft)
  | @cons draft final e es f set head tail ih =>
    obtain ⟨first, rest⟩ := List.forall_mem_cons.mp fresh
    -- A name is looked up among the fields of both records, the first one before the second.
    refine .cons (f := f.inSecond) ⟨?_, head.missing, head.found.map _⟩ (ih rest)
    have unnamed : (others.map (@Field.inFirst τ σ)).find? (·.name == e.1) = none := by
      rw [List.find?_map, Option.map_eq_none_iff, List.find?_eq_none]
      intro g hg same
      apply first
      rw [← show g.name = e.1 by simpa [Field.inFirst] using same]
      exact List.mem_map_of_mem hg
    have named : (fields.map (@Field.inSecond τ σ)).find? (·.name == e.1) = some f.inSecond := by
      rw [List.find?_map]
      exact congrArg (Option.map Field.inSecond) head.named
    rw [List.find?_append, unnamed, named]
    rfl

end Fills

namespace Shape

/-- The names of the fields of a record. -/
def names (a : Shape α) : List String := a.fields.map Field.name

@[simp] theorem names_field (name : String) (d : Decoder α) : (field name d).names = [name] := rfl

@[simp] theorem names_optional (name : String) (d : Decoder α) (default : α) :
    (optional name d default).names = [name] := rfl

/-- The entries hold the fields of the record, and nothing else. -/
def Holds (a : Shape α) (es : List (String × Value)) (x : α) : Prop :=
  ∃ draft, Fills a.fields a.start es draft ∧ a.finish draft = .ok x

namespace Holds

theorem field {name : String} {d : Decoder α} {v : Value} {x : α} (h : d.Finds v x) :
    (field name d).Holds [(name, v)] x :=
  ⟨some x, .single h, rfl⟩

theorem optional {name : String} {d : Decoder α} {default : α} {v : Value} {x : α}
    (h : d.Finds v x) : (optional name d default).Holds [(name, v)] x :=
  ⟨some x, .single h, rfl⟩

theorem map {a : Shape α} {es : List (String × Value)} {x : α} (f : α → β) (h : a.Holds es x) :
    (a.map f).Holds es (f x) := by
  obtain ⟨draft, filled, finished⟩ := h
  refine ⟨draft, filled, ?_⟩
  simp only [Shape.map, finished]
  rfl

theorem both {a : Shape α} {b : Shape β} {es es' : List (String × Value)} {x : α} {y : β}
    (first : a.Holds es x) (second : b.Holds es' y) (fresh : ∀ e ∈ es', e.1 ∉ a.names) :
    (a.both b).Holds (es ++ es') (x, y) := by
  obtain ⟨draft, filled, finished⟩ := first
  obtain ⟨draft', filled', finished'⟩ := second
  refine ⟨(draft, draft'), (filled.inFirst _ b.start).append (filled'.inSecond draft fresh), ?_⟩
  simp only [Shape.both, finished, finished']
  rfl

/-- A field that has to be there, in front of others. -/
theorem field_both {name : String} {d : Decoder α} {b : Shape β} {v : Value}
    {es : List (String × Value)} {x : α} {y : β} (h : d.Finds v x) (fresh : ∀ e ∈ es, e.1 ≠ name)
    (others : b.Holds es y) : ((Shape.field name d).both b).Holds ((name, v) :: es) (x, y) :=
  (field h).both others (by simpa using fresh)

/-- A field with a default, in front of others. -/
theorem optional_both {name : String} {d : Decoder α} {default : α} {b : Shape β} {v : Value}
    {es : List (String × Value)} {x : α} {y : β} (h : d.Finds v x) (fresh : ∀ e ∈ es, e.1 ≠ name)
    (others : b.Holds es y) :
    ((Shape.optional name d default).both b).Holds ((name, v) :: es) (x, y) :=
  (optional h).both others (by simpa using fresh)

theorem ofEntries {a : Shape α} {es : List (String × Value)} {x : α} (h : a.Holds es x) :
    a.ofEntries es = .ok x := by
  obtain ⟨draft, filled, finished⟩ := h
  simp only [Shape.ofEntries, filled.foldlM_takeEntry]
  exact finished

theorem exact {a : Shape α} {es : List (String × Value)} {x : α} (h : a.Holds es x) :
    ∀ e ∈ es, e.2.Exact := by
  obtain ⟨draft, filled, -⟩ := h
  exact filled.exact

/-- A record is found in the object of its fields. -/
theorem decoder {a : Shape α} {es : List (String × Value)} {x : α} (h : a.Holds es x)
    (title : String) : (a.decoder title).Finds (.object es) x where
  exact := .object h.exact
  reads {room} fits := by
    obtain ⟨draft, filled, finished⟩ := h
    cases room with
    | zero => simp [Value.depth] at fits
    | succ room =>
      have inside := Value.entriesDepth_le_iff.mp (Nat.le_of_succ_le_succ fits)
      refine ((filled.readsEntries inside).readsTo.bind_pure ?_).objectBody.reads
      rw [finished]
      rfl
  decodes := h.ofEntries

end Holds

end Shape

/-! ## §4 Tags -/

section Tags

variable {names : List String} {name : String} {i : Fin names.length}

theorem Tag.takes_readText (index : variantIndex names name = .ok i) :
    Takes (Tag.readText names) (textChars name) i := by
  intro rest
  refine (Reader.run_peekToken_bind rfl _ _).trans ?_
  change (Reader.text >>= _).run (textChars name ++ rest) = _
  rw [Reader.run_bind, Reader.takes_text]
  simp only [index, Reader.run_pure]

theorem Tag.finds_name (index : variantIndex names name = .ok i) :
    (Tag.name names).Finds (.text name) i where
  exact := .text name
  reads _ := fun rest _ => Tag.takes_readText index rest
  decodes := index

end Tags

/-! ## §5 Inner tags -/

namespace InnerTagged

variable {t : InnerTagged α} {i : Fin t.names.length} {es : List (String × Value)}

theorem foldlM_takeEntry (untagged : ∀ e ∈ es, e.1 ≠ t.tag) (kept : List (String × Value)) :
    es.foldlM t.takeEntry (some i, kept) = .ok (some i, es.reverse ++ kept) := by
  induction es generalizing kept with
  | nil => rfl
  | cons e es ih =>
    obtain ⟨first, others⟩ := List.forall_mem_cons.mp untagged
    have taken : t.takeEntry (some i, kept) e = .ok (some i, e :: kept) := by
      simp [takeEntry, first]
    rw [List.foldlM_cons, taken, List.reverse_cons, List.append_assoc]
    exact ih others (e :: kept)

theorem readsEntries {room : Nat} (untagged : ∀ e ∈ es, e.1 ≠ t.tag)
    (exact : ∀ e ∈ es, e.2.Exact) (inside : ∀ e ∈ es, e.2.depth ≤ room)
    (kept : List (String × Value)) :
    ReadsEntries (t.readEntry room) (some i, kept) es (some i, es.reverse ++ kept) := by
  induction es generalizing kept with
  | nil => exact .nil _
  | cons e es ih =>
    obtain ⟨first, others⟩ := List.forall_mem_cons.mp untagged
    have read := Reader.reads_value (exact e List.mem_cons_self) (inside e List.mem_cons_self)
    have head : Reads (t.readEntry room (some i, kept) e.1) (':' :: e.2.chars)
        (some i, e :: kept) := by
      simp only [readEntry, beq_iff_eq, first, if_false]
      exact read.keepEntry.bind_pure
    have tail := ih others (fun x hx => exact x (List.mem_cons_of_mem _ hx))
      (fun x hx => inside x (List.mem_cons_of_mem _ hx)) (e :: kept)
    rw [List.reverse_cons, List.append_assoc]
    exact .cons head tail

/-- A variant is found in the object of its tag and its entries. -/
theorem finds {name : String} {x : α} (index : variantIndex t.names name = .ok i)
    (untagged : ∀ e ∈ es, e.1 ≠ t.tag) (exact : ∀ e ∈ es, e.2.Exact)
    (decodes : (t.body i).decode (.entries es) = .ok x) :
    t.decoder.Finds (.object ((t.tag, .text name) :: es)) x where
  exact := .object (List.forall_mem_cons.mpr ⟨.text name, exact⟩)
  reads {room} fits := by
    cases room with
    | zero => simp [Value.depth] at fits
    | succ room =>
      have inside := Value.entriesDepth_le_iff.mp (Nat.le_of_succ_le_succ fits)
      -- The tag is read at once; what follows is kept as values until all of it is there.
      have others := readsEntries (i := i) untagged exact (List.forall_mem_cons.mp inside).2 []
      have tagged : Reads (t.readEntry room (none, []) t.tag) (':' :: textChars name)
          (some i, []) := by
        simp only [readEntry, beq_self_eq_true, if_true, Option.isSome_none]
        exact Reader.takes_colon.bind_reads (Tag.takes_readText index).reads.bind_pure
      have entries : ReadsEntries (t.readEntry room) (none, []) ((t.tag, .text name) :: es)
          (some i, es.reverse ++ []) := .cons tagged others
      have parts : Reads (t.readParts (room + 1)) (Value.object ((t.tag, .text name) :: es)).chars
          (i, .entries es) := by
        refine (entries.readsTo.bind_pure ?_).objectBody.reads
        simp [complete, Reader.ofExcept]
      -- From here on the text is not looked at any more.
      intro rest closes
      simp only [decoder, Reader.run_bind, parts rest closes, decodes]
      rfl
  decodes := by
    have tagged : t.takeEntry (none, []) (t.tag, .text name) = .ok (some i, []) := by
      simp only [takeEntry, beq_self_eq_true, if_true, Option.isSome_none, Tag.ofValue, index]
      rfl
    have folded := foldlM_takeEntry (i := i) untagged []
    have parts : t.partsOfValue (.object ((t.tag, .text name) :: es)) = .ok (i, .entries es) := by
      rw [partsOfValue, List.foldlM_cons, tagged]
      change es.foldlM t.takeEntry (some i, []) >>= t.complete = _
      rw [folded, List.append_nil]
      exact congrArg (fun es => Except.ok (i, Remainder.entries es)) (List.reverse_reverse es)
    simp only [decoder, parts]
    exact decodes

end InnerTagged

/-- A variant without fields is found in the object of its tag. -/
theorem InnerTagged.finds_unit {t : InnerTagged α} {i : Fin t.names.length} {name : String} {x : α}
    (index : variantIndex t.names name = .ok i) (body : t.body i = .unit x) :
    t.decoder.Finds (.object [(t.tag, .text name)]) x := by
  apply InnerTagged.finds index
  · simp
  · simp
  · rw [body]
    rfl

/-- A variant with fields is found in the object of its tag and its fields. -/
theorem InnerTagged.finds_record {t : InnerTagged α} {i : Fin t.names.length} {name title : String}
    {shape : Shape α} {es : List (String × Value)} {x : α}
    (index : variantIndex t.names name = .ok i) (body : t.body i = .record title shape)
    (untagged : ∀ e ∈ es, e.1 ≠ t.tag) (h : shape.Holds es x) :
    t.decoder.Finds (.object ((t.tag, .text name) :: es)) x := by
  apply InnerTagged.finds index untagged h.exact
  rw [body]
  exact h.ofEntries

/-! ## §6 Adjacent tags -/

namespace AdjacentTagged

variable {t : AdjacentTagged α} {i : Fin t.names.length} {name : String}

/-- The tag is read from the first entry. -/
theorem reads_tag (index : variantIndex t.names name = .ok i) (room : Nat) :
    Reads (t.readEntry room .empty t.tag) (':' :: textChars name) (.tagged i) := by
  simp only [readEntry, beq_self_eq_true, if_true]
  exact Reader.takes_colon.bind_reads ((Tag.finds_name index).reads (Nat.zero_le room)).bind_pure

theorem takes_tag (index : variantIndex t.names name = .ok i) :
    t.takeEntry .empty (t.tag, .text name) = .ok (.tagged i) := by
  simp only [takeEntry, beq_self_eq_true, if_true, (Tag.finds_name index).decodes]
  rfl

/-- The object of a choice is read when its entries are, and the state behind them is complete. -/
theorem reads_decoder {es : List (String × Value)} {state : t.State} {x : α} {room : Nat}
    (entries : ReadsEntries (t.readEntry room) .empty es state)
    (finished : t.finish state = .ok x) :
    Reads (t.decoder.read (room + 1)) (Value.object es).chars x := by
  refine (entries.readsTo.bind_pure ?_).objectBody.reads
  rw [finished]
  rfl

/-- A variant without content is found in the object of its tag. -/
theorem finds_unit {x : α} (index : variantIndex t.names name = .ok i)
    (variant : (t.variant i).2 = .unit x) :
    t.decoder.Finds (.object [(t.tag, .text name)]) x where
  exact := .object (List.forall_mem_singleton.mpr (.text name))
  reads {room} fits := by
    cases room with
    | zero => simp [Value.depth] at fits
    | succ room =>
      apply reads_decoder (.cons (reads_tag index room) (.nil (.tagged i)))
      simp only [finish, variant]
  decodes := by
    simp only [decoder, List.foldlM_cons, takes_tag index]
    change t.finish (.tagged i) = .ok x
    simp only [finish, variant]

/-- A variant with content is found in the object of its tag and its content. -/
theorem finds_payload {x : α} {d : Decoder α} {v : Value}
    (index : variantIndex t.names name = .ok i) (variant : (t.variant i).2 = .payload d)
    (distinct : t.content ≠ t.tag) (h : d.Finds v x) :
    t.decoder.Finds (.object [(t.tag, .text name), (t.content, v)]) x where
  exact := by
    apply Value.Exact.object
    simp [h.exact, Value.Exact.text]
  reads {room} fits := by
    cases room with
    | zero => simp [Value.depth] at fits
    | succ room =>
      have inside := Value.entriesDepth_le_iff.mp (Nat.le_of_succ_le_succ fits)
      have content : Reads (t.readEntry room (.tagged i) t.content) (':' :: v.chars)
          (.complete x) := by
        simp only [readEntry, beq_iff_eq, distinct, if_false, if_true, readContent, variant]
        have fits' : v.depth ≤ room := inside (t.content, v) (by simp)
        exact Reader.takes_colon.bind_reads (h.reads fits').bind_pure
      have entries : ReadsEntries (t.readEntry room) .empty
          [(t.tag, .text name), (t.content, v)] (.complete x) :=
        .cons (reads_tag index room) (.cons content (.nil _))
      exact reads_decoder entries rfl
  decodes := by
    have content : t.takeEntry (.tagged i) (t.content, v) = .ok (.complete x) := by
      simp only [takeEntry, beq_iff_eq, distinct, if_false, if_true, contentOfValue, variant,
        h.decodes]
      rfl
    simp only [decoder, List.foldlM_cons, takes_tag index]
    change (t.takeEntry (.tagged i) (t.content, v) >>= pure) >>= t.finish = _
    rw [content]
    rfl

end AdjacentTagged

/-! ## §7 Whole texts -/

/-- What is found in a value is what the text of the value means, where there is room. -/
theorem Decoder.Finds.parse {d : Decoder α} {v : Value} {a : α} (h : d.Finds v a) {room : Nat}
    (fits : v.depth ≤ room) : d.parse room v.render = .ok a := by
  have read := h.reads fits [] closes_nil
  rw [List.append_nil] at read
  have ended : Reader.endOfText.run [] = .ok ((), []) := rfl
  rw [Value.render_eq_ofList_chars]
  simp only [Decoder.parse, String.toList_ofList, Reader.run_bind, read, ended]
  rfl

end ActionFlow.Json
