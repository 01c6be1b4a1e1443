import ActionFlow.Proofs.Json.Scalars

/-!
# Values are read back

A value whose numbers are integers of 64 bits is read back from its text, provided that the reader
has room for its lists and objects. Elements and entries are separated by commas, so the loops that
read them are followed element by element, whatever each element is read as.

## Main statements

- `Value.depth`, `Value.Exact`: how deep a value is nested, and values that are written exactly.
- `Reader.readsTo_elements`, `Reader.ReadsEntries.readsTo`: the loops over elements and entries.
- `Reader.reads_value`: exact values are read back.
-/

namespace ActionFlow.Json

namespace Value

/-! ## §1 Depth -/

mutual

/-- How many lists and objects of a value are open inside each other. -/
def depth : Value → Nat
  | list items => itemsDepth items + 1
  | object entries => entriesDepth entries + 1
  | _ => 0

/-- How deep elements are nested. -/
def itemsDepth : List Value → Nat
  | [] => 0
  | v :: vs => max (depth v) (itemsDepth vs)

/-- How deep the values of entries are nested. -/
def entriesDepth : List (String × Value) → Nat
  | [] => 0
  | (_, v) :: es => max (depth v) (entriesDepth es)

end

theorem itemsDepth_le_iff {vs : List Value} {n : Nat} :
    itemsDepth vs ≤ n ↔ ∀ v ∈ vs, v.depth ≤ n := by
  induction vs with
  | nil => simp [itemsDepth]
  | cons v vs ih => simp [itemsDepth, ih]

theorem entriesDepth_le_iff {es : List (String × Value)} {n : Nat} :
    entriesDepth es ≤ n ↔ ∀ e ∈ es, e.2.depth ≤ n := by
  induction es with
  | nil => simp [entriesDepth]
  | cons e es ih => simp [entriesDepth, ih]

theorem depth_le_entriesDepth {es : List (String × Value)} {k : String} {v : Value}
    (mem : (k, v) ∈ es) : v.depth ≤ entriesDepth es :=
  entriesDepth_le_iff.mp (Nat.le_refl _) (k, v) mem

/-! ## §2 Exact values -/

/-- A value whose numbers are integers of 64 bits. -/
inductive Exact : Value → Prop
  | null : Exact null
  | boolean (b : Bool) : Exact (boolean b)
  | integer {n : Int} (whole : IsWhole n) : Exact (integer n)
  | text (s : String) : Exact (text s)
  | list {items : List Value} (each : ∀ v ∈ items, Exact v) : Exact (list items)
  | object {entries : List (String × Value)} (each : ∀ e ∈ entries, Exact e.2) :
    Exact (object entries)

end Value

/-- The value that was found, if it is no list and no object. -/
def Found.scalar? : Found → Option Value
  | null => some .null
  | boolean b => some (.boolean b)
  | integer n => some (.integer n)
  | double x => some (.double x)
  | text s => some (.text s)
  | list => none
  | object => none

/-- A character with which a value can start: no blank, and not the end of a list. -/
structure Opens (c : Char) : Prop where
  not_blank : isBlank c = false
  not_bracket : c ≠ ']'

instance (c : Char) : Decidable (Opens c) :=
  decidable_of_iff (isBlank c = false ∧ c ≠ ']')
    ⟨fun h => ⟨h.1, h.2⟩, fun h => ⟨h.not_blank, h.not_bracket⟩⟩

/-- A character with which an integer can start. -/
def StartsNumeral (c : Char) : Prop := (c = '-' || isDigit c) = true

theorem integerChars_eq_cons (n : Int) :
    ∃ c s, integerChars n = c :: s ∧ StartsNumeral c := by
  unfold integerChars
  split
  · exact ⟨'-', _, rfl, rfl⟩
  · have nonempty : Nat.toDigits 10 n.natAbs ≠ [] := Nat.toDigits_ne_nil
    obtain ⟨c, ds, digits_eq⟩ := List.exists_cons_of_ne_nil nonempty
    have digit : isDigit c = true := isDigit_of_mem_toDigits (n := n.natAbs) (by simp [digits_eq])
    exact ⟨c, ds, digits_eq, by simp [StartsNumeral, digit]⟩

theorem StartsNumeral.ne {c d : Char} (h : StartsNumeral c) (other : ¬ StartsNumeral d) :
    c ≠ d := by
  rintro rfl
  exact other h

instance (c : Char) : Decidable (StartsNumeral c) :=
  inferInstanceAs (Decidable ((c = '-' || isDigit c) = true))

theorem StartsNumeral.opens {c : Char} (h : StartsNumeral c) : Opens c := by
  refine ⟨?_, h.ne (by decide)⟩
  have blank : c ≠ ' ' ∧ c ≠ '\t' ∧ c ≠ '\r' ∧ c ≠ '\n' :=
    ⟨h.ne (by decide), h.ne (by decide), h.ne (by decide), h.ne (by decide)⟩
  simp [isBlank, blank]

theorem opens_quote : Opens '"' := by decide

theorem Value.Exact.chars_eq_cons {v : Value} (h : v.Exact) :
    ∃ c s, v.chars = c :: s ∧ Opens c := by
  cases h with
  | null => exact ⟨_, _, rfl, by decide⟩
  | boolean b => cases b <;> exact ⟨_, _, rfl, by decide⟩
  | @integer n whole =>
    obtain ⟨c, s, chars_eq, starts⟩ := integerChars_eq_cons n
    exact ⟨c, s, by rw [Value.chars, chars_eq], starts.opens⟩
  | text s => exact ⟨_, _, rfl, opens_quote⟩
  | list each => exact ⟨_, _, rfl, by decide⟩
  | object each => exact ⟨_, _, rfl, by decide⟩

namespace Value

/-- An entry of an object as it is written. -/
def entryText (e : String × Value) : List Char := textChars e.1 ++ ':' :: e.2.chars

theorem itemChars_cons (v : Value) (vs : List Value) :
    itemChars (v :: vs) = v.chars ++ vs.flatMap fun w => ',' :: w.chars := by
  induction vs generalizing v with
  | nil => simp [itemChars]
  | cons w vs ih => rw [itemChars, ih, List.flatMap_cons, List.cons_append]

theorem entryChars_cons (e : String × Value) (es : List (String × Value)) :
    entryChars (e :: es) = entryText e ++ es.flatMap fun e => ',' :: entryText e := by
  induction es generalizing e with
  | nil => simp [entryChars, entryText]
  | cons e' es ih => simp [entryChars, ih, entryText]

end Value

/-! ## §3 Moving on inside brackets -/

theorem separator_close (first : Bool) (rest : List Char) :
    separator first (']' :: rest) = .ok (false, ']' :: rest) := rfl

theorem separator_first {c : Char} (h : Opens c) (rest : List Char) :
    separator true (c :: rest) = .ok (true, c :: rest) := by
  have kept : skipBlanks (c :: rest) = c :: rest := by simp [skipBlanks, h.not_blank]
  unfold separator
  rw [kept]
  split
  · next heq => cases heq
  · next heq => exact absurd (List.cons.inj heq).1 h.not_bracket
  · next heq =>
    obtain ⟨rfl, rfl⟩ := List.cons.inj heq
    rfl

theorem separator_comma {c : Char} (h : Opens c) (rest : List Char) :
    separator false (',' :: c :: rest) = .ok (true, c :: rest) := by
  have kept : skipBlanks (c :: rest) = c :: rest := by simp [skipBlanks, h.not_blank]
  have comma : skipBlanks (',' :: c :: rest) = ',' :: c :: rest := rfl
  unfold separator
  rw [comma]
  split
  · next heq => cases heq
  · next heq => cases heq
  · next heq =>
    obtain ⟨rfl, rfl⟩ := List.cons.inj heq
    rw [if_neg Bool.false_ne_true, if_pos rfl, kept]
    -- Behind the comma only a closing bracket is refused.
    split
    · next heq => cases heq
    · next heq => exact absurd (List.cons.inj heq).1 h.not_bracket
    · rfl

theorem keyText_textChars (k : String) (rest : List Char) :
    keyText (textChars k ++ rest) = .ok (some k, rest) := by
  have opened : textChars k ++ rest = '"' :: ((textChars k).tail ++ rest) := rfl
  simp only [opened, keyText, textTail_textChars]

theorem key_close (first : Bool) (rest : List Char) :
    key first ('\x7d' :: rest) = .ok (none, '\x7d' :: rest) := rfl

theorem key_first (k : String) (rest : List Char) :
    key true (textChars k ++ rest) = .ok (some k, rest) :=
  keyText_textChars k rest

theorem key_comma (k : String) (rest : List Char) :
    key false (',' :: (textChars k ++ rest)) = .ok (some k, rest) :=
  keyText_textChars k rest

namespace Reader

variable {α σ : Type}

theorem takes_colon : Takes colon [':'] () := fun _ => rfl

/-! ## §4 Loops -/

/-- The reader takes the characters as the value, up to the given closing character. -/
def ReadsTo (x : Reader α) (close : Char) (s : List Char) (a : α) : Prop :=
  ∀ rest, x.run (s ++ close :: rest) = .ok (a, close :: rest)

theorem elementsFrom_of_close {x : Reader α} {first : Bool} {found : List α} {s r : List Char}
    (h : separator first s = .ok (false, r)) :
    elementsFrom x first found s = .ok (found.reverse, r) := by
  rw [elementsFrom]
  split <;> simp_all

theorem elementsFrom_of_next {x : Reader α} {first : Bool} {found : List α} {s r t : List Char}
    {a : α} (h : separator first s = .ok (true, r)) (read : x.run r = .ok (a, t)) :
    elementsFrom x first found s = elementsFrom x false (a :: found) t := by
  rw [elementsFrom]
  split
  · next heq => simp [h] at heq
  · next heq => simp [h] at heq
  · next heq =>
    obtain rfl : r = _ := by simpa [h] using heq
    split <;> simp_all

/-- The element is exact, and the reader finds something in its text. -/
structure ReadsElement (x : Reader α) (v : Value) (a : α) : Prop where
  exact : v.Exact
  reads : Reads x v.chars a

theorem closes_following (vs : List Value) (rest : List Char) :
    Closes ((vs.flatMap fun v => ',' :: v.chars) ++ ']' :: rest) := by
  cases vs with
  | nil => exact closes_list rest
  | cons v vs => exact closes_comma _

theorem elementsFrom_following {x : Reader α} {vs : List Value} {as : List α}
    (each : List.Forall₂ (ReadsElement x) vs as) (found : List α) (rest : List Char) :
    elementsFrom x false found ((vs.flatMap fun v => ',' :: v.chars) ++ ']' :: rest)
      = .ok (found.reverse ++ as, ']' :: rest) := by
  induction each generalizing found with
  | nil => simpa using elementsFrom_of_close (separator_close false rest)
  | @cons v a vs as head tail ih =>
    -- The comma is only passed because the element does not start with a closing bracket.
    obtain ⟨c, s, chars_eq, opens⟩ := head.exact.chars_eq_cons
    have read := head.reads _ (closes_following vs rest)
    simp only [List.flatMap_cons, List.cons_append, List.append_assoc]
    rw [chars_eq, List.cons_append] at read ⊢
    rw [elementsFrom_of_next (separator_comma opens _) read, ih]
    simp

/-- All elements of a list are read one after another. -/
theorem readsTo_elements {x : Reader α} {vs : List Value} {as : List α}
    (each : List.Forall₂ (ReadsElement x) vs as) :
    ReadsTo (elements x true) ']' (Value.itemChars vs) as := by
  intro rest
  cases each with
  | nil => exact elementsFrom_of_close (separator_close true rest)
  | @cons v a vs as head tail =>
    obtain ⟨c, s, chars_eq, opens⟩ := head.exact.chars_eq_cons
    have read := head.reads _ (closes_following vs rest)
    rw [Value.itemChars_cons, List.append_assoc]
    rw [chars_eq, List.cons_append] at read ⊢
    refine (elementsFrom_of_next (separator_first opens _) read).trans ?_
    rw [elementsFrom_following tail]
    simp

theorem entriesFrom_of_close {step : σ → String → Reader σ} {first : Bool} {state : σ}
    {s r : List Char} (h : key first s = .ok (none, r)) :
    entriesFrom step first state s = .ok (state, r) := by
  rw [entriesFrom]
  split <;> simp_all

theorem entriesFrom_of_next {step : σ → String → Reader σ} {first : Bool} {state next : σ}
    {s r t : List Char} {k : String} (h : key first s = .ok (some k, r))
    (read : (step state k).run r = .ok (next, t)) :
    entriesFrom step first state s = entriesFrom step false next t := by
  rw [entriesFrom]
  split
  · next heq => simp [h] at heq
  · next heq => simp [h] at heq
  · next heq =>
    obtain ⟨rfl, rfl⟩ : k = _ ∧ r = _ := by simpa [h] using heq
    split <;> simp_all

/-- The states that a reader goes through over the entries of an object. -/
inductive ReadsEntries (step : σ → String → Reader σ) : σ → List (String × Value) → σ → Prop
  | nil (state : σ) : ReadsEntries step state [] state
  | cons {state next final : σ} {e : String × Value} {es : List (String × Value)}
    (head : Reads (step state e.1) (':' :: e.2.chars) next)
    (tail : ReadsEntries step next es final) : ReadsEntries step state (e :: es) final

theorem closes_followingEntries (es : List (String × Value)) (rest : List Char) :
    Closes ((es.flatMap fun e => ',' :: Value.entryText e) ++ '\x7d' :: rest) := by
  cases es with
  | nil => exact closes_object rest
  | cons e es => exact closes_comma _

namespace ReadsEntries

variable {step : σ → String → Reader σ} {state final : σ} {es : List (String × Value)}

theorem entriesFrom_following (h : ReadsEntries step state es final) (rest : List Char) :
    entriesFrom step false state ((es.flatMap fun e => ',' :: Value.entryText e) ++ '\x7d' :: rest)
      = .ok (final, '\x7d' :: rest) := by
  induction h with
  | nil state => exact entriesFrom_of_close (key_close false rest)
  | @cons state next final e es head tail ih =>
    have read := head _ (closes_followingEntries es rest)
    simp only [List.flatMap_cons, List.cons_append, List.append_assoc]
    rw [Value.entryText, List.append_assoc, entriesFrom_of_next (key_comma e.1 _) read, ih]

/-- All entries of an object are read one after another. -/
theorem readsTo (h : ReadsEntries step state es final) :
    ReadsTo (entries step state) '\x7d' (Value.entryChars es) final := by
  intro rest
  cases h with
  | nil => exact entriesFrom_of_close (key_close true rest)
  | @cons _ next _ e es head tail =>
    have read := head _ (closes_followingEntries es rest)
    rw [Value.entryChars_cons, List.append_assoc, Value.entryText, List.append_assoc]
    refine (entriesFrom_of_next (key_first e.1 _) read).trans ?_
    rw [tail.entriesFrom_following]

end ReadsEntries

/-! ## §5 Brackets -/

theorem run_placingAfter (close : List Char → List Char) {x : Reader α} {s r : List Char} {a : α}
    (h : x.run s = .ok (a, r)) : (placingAfter close x).run s = .ok (a, r) := by
  simp only [placingAfter, h]

theorem ReadsTo.listBody {inner : Reader α} {s : List Char} {a : α} (h : ReadsTo inner ']' s a) :
    Takes (listBody inner) ('[' :: (s ++ [']'])) a := by
  intro rest
  have read := run_placingAfter closeList (h rest)
  rw [List.cons_append, List.append_assoc, List.singleton_append]
  simp only [Reader.listBody, run_bind, skip, List.tail_cons, read]
  rfl

theorem ReadsTo.objectBody {inner : Reader α} {s : List Char} {a : α}
    (h : ReadsTo inner '\x7d' s a) : Takes (objectBody inner) ('\x7b' :: (s ++ ['\x7d'])) a := by
  intro rest
  have read := run_placingAfter closeObject (h rest)
  rw [List.cons_append, List.append_assoc, List.singleton_append]
  simp only [Reader.objectBody, run_bind, skip, List.tail_cons, read]
  rfl

theorem ReadsTo.bind_pure {β : Type} {x : Reader α} {close : Char} {s : List Char} {a : α} {b : β}
    {f : α → Reader β} (h : ReadsTo x close s a) (returns : f a = pure b) :
    ReadsTo (x >>= f) close s b := by
  intro rest
  rw [run_bind, h rest]
  simp only [returns, run_pure]

/-! ## §6 Whole values -/

/-- A numeral that is next is found. -/
theorem run_found_of_numeral {c : Char} {s r : List Char} {n : Int} (starts : StartsNumeral c)
    (read : numeral.run (c :: s) = .ok (.integer n, r)) :
    found.run (c :: s) = .ok (.integer n, r) := by
  have other : c ≠ 'n' ∧ c ≠ 't' ∧ c ≠ 'f' ∧ c ≠ '"' ∧ c ≠ '[' ∧ c ≠ '\x7b' := by
    refine ⟨?_, ?_, ?_, ?_, ?_, ?_⟩ <;> exact starts.ne (by decide)
  simp only [found, run_bind, peek, List.head?_cons]
  -- Every other kind of value is announced by a character of its own.
  split
  all_goals simp_all [StartsNumeral]

/-- What is found is the value, where no list and no object starts. -/
theorem run_valueWith_of_found {list object : Reader Value} {c : Char} {s r : List Char} {f : Found}
    {v : Value} (opens : Opens c) (bracket : c ≠ '[') (brace : c ≠ '\x7b')
    (found_eq : found.run (c :: s) = .ok (f, r)) (scalar : f.scalar? = some v) :
    (valueWith list object).run (c :: s) = .ok (v, r) := by
  rw [valueWith, run_peekToken_bind opens.not_blank]
  split
  · next heq => exact absurd (Option.some.inj heq) bracket
  · next heq => exact absurd (Option.some.inj heq) brace
  · rw [run_bind, found_eq]
    cases f <;> cases scalar <;> rfl

theorem reads_valueWith_integer {list object : Reader Value} {n : Int} (whole : IsWhole n) :
    Reads (valueWith list object) (Value.integer n).chars (.integer n) := by
  intro rest closes
  obtain ⟨c, s, chars_eq, starts⟩ := integerChars_eq_cons n
  have read := reads_numeral whole rest closes
  rw [Value.chars, chars_eq, List.cons_append] at *
  exact run_valueWith_of_found starts.opens (starts.ne (by decide)) (starts.ne (by decide))
    (run_found_of_numeral starts read) rfl

theorem takes_valueWith_text {list object : Reader Value} (s : String) :
    Takes (valueWith list object) (Value.text s).chars (.text s) := by
  intro rest
  have read : Reader.text.run ('"' :: ((textChars s).tail ++ rest)) = .ok (s, rest) :=
    takes_text s rest
  have found_eq : found.run ('"' :: ((textChars s).tail ++ rest)) = .ok (.text s, rest) := by
    have seen : found.run ('"' :: ((textChars s).tail ++ rest))
        = (Reader.text >>= fun s => pure (.text s)).run ('"' :: ((textChars s).tail ++ rest)) := rfl
    rw [seen, run_bind, read]
    rfl
  exact run_valueWith_of_found opens_quote (by decide) (by decide) found_eq rfl

/-- An entry is kept in front of those found before it. -/
theorem Reads.keepEntry {x : Reader Value} {v : Value} (h : Reads x v.chars v)
    {found : List (String × Value)} {k : String} :
    Reads (keepEntry x found k) (':' :: v.chars) ((k, v) :: found) :=
  takes_colon.bind_reads h.bind_pure

/-- All entries of an object are kept, the last one in front. -/
theorem readsEntries_keepEntry {x : Reader Value} {es : List (String × Value)}
    (each : ∀ e ∈ es, Reads x e.2.chars e.2) (found : List (String × Value)) :
    ReadsEntries (keepEntry x) found es (es.reverse ++ found) := by
  induction es generalizing found with
  | nil => exact .nil found
  | cons e es ih =>
    obtain ⟨first, others⟩ := List.forall_mem_cons.mp each
    rw [List.reverse_cons, List.append_assoc]
    exact .cons first.keepEntry (ih others (e :: found))

/-- An exact value is read back where there is room for it. -/
theorem reads_value {v : Value} (exact : v.Exact) {room : Nat} (fits : v.depth ≤ room) :
    Reads (value room) v.chars v := by
  -- The induction is on the value; with each bracket the room gets smaller by one level.
  induction exact generalizing room with
  | null => cases room <;> exact fun _ _ => rfl
  | boolean b => cases room <;> cases b <;> exact fun _ _ => rfl
  | integer whole => cases room <;> exact reads_valueWith_integer whole
  | text s => cases room <;> exact (takes_valueWith_text s).reads
  | @list items each ih =>
    cases room with
    | zero => simp [Value.depth] at fits
    | succ room =>
      have inside := Value.itemsDepth_le_iff.mp (Nat.le_of_succ_le_succ fits)
      have elements : List.Forall₂ (ReadsElement (value room)) items items := by
        rw [List.forall₂_same]
        exact fun v hv => ⟨each v hv, ih v hv (inside v hv)⟩
      refine ((readsTo_elements elements).bind_pure ?_).listBody.reads
      rfl
  | @object entries each ih =>
    cases room with
    | zero => simp [Value.depth] at fits
    | succ room =>
      have inside := Value.entriesDepth_le_iff.mp (Nat.le_of_succ_le_succ fits)
      have kept := readsEntries_keepEntry (fun e he => ih e he (inside e he)) []
      refine (kept.readsTo.bind_pure ?_).objectBody.reads
      rw [List.append_nil, List.reverse_reverse]

end Reader

end ActionFlow.Json
